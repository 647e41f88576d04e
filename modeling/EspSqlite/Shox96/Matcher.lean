import EspSqlite.Foundation.Loop
import EspSqlite.Shox96.BitWriter

/-! # Finding repeats

`matchOccurance` looks for an earlier occurrence in the text itself,
`matchLine` in a chain of previous lines. Both search and write in one loop;
what they choose is given separately by `priorMatch` and `lineMatch`. -/

namespace EspSqlite.Shox96

open BitMemory Loop

/-! ## The source functions -/

def byteAt (text : List UInt8) (index : Nat) : UInt8 := text.getD index 0

def priorEnd (text : List UInt8) (l j : Nat) : Nat :=
  scan (fun k => decide (k < l ∧ l + k - j < text.length) &&
    byteAt text k == byteAt text (l + k - j)) l j

/-- The outer loop of `matchOccurance` with `fuel` start points left. -/
def matchOccuranceLoop (text : List UInt8) (l : Nat) (writer : Writer) :
    (fuel j : Nat) → Int × Writer
  | 0, _ => (-(l : Int), writer)
  | fuel + 1, j =>
      let k := priorEnd text l j
      if k - j > niceLenForPrior - 1 then
        let writer := appendBits writer 14144 10 .state1
        let writer := encodeCount writer (k - j - niceLenForPrior)
        let writer := encodeCount writer (l - j - niceLenForPrior + 1)
        ((l : Int) + (k - j : Nat) - 1, writer)
      else
        matchOccuranceLoop text l writer fuel (j + 1)

def matchOccurance (text : List UInt8) (l : Nat) (writer : Writer) : Int × Writer :=
  matchOccuranceLoop text l writer l 0

/-- The end `k` of the inner loop of `matchLine` started at `j`; the loop's `i`
is `l + (k - j)`. -/
def lineEnd (text : List UInt8) (l : Nat) (line : CString) (j : Nat) : Nat :=
  scan (fun k => decide (k < line.strlen ∧ l + (k - j) < text.length) &&
    byteAt line.chars k == byteAt text (l + (k - j))) line.strlen j

/-- The variables `last_len`, `last_dist` and `last_ctx` of `matchLine`, and the
buffer with `*ol`. -/
structure LineSearch where
  lastLen : Nat
  lastDist : Nat
  lastCtx : Nat
  writer : Writer

def LineSearch.take (search : LineSearch) (length dist ctx : Nat) : LineSearch :=
  let writer := appendBits search.writer 14080 10 .state1
  let writer := encodeCount writer (length - niceLenForOther)
  let writer := encodeCount writer dist
  let writer := encodeCount writer ctx
  ⟨length, dist, ctx, writer⟩

/-- The loop of `matchLine` over the start points of one line. -/
def matchLineStarts (text : List UInt8) (l lastOl lineCtr : Nat) (line : CString) :
    (fuel j : Nat) → LineSearch → LineSearch
  | 0, _, search => search
  | fuel + 1, j, search =>
      let k := lineEnd text l line j
      let search :=
        if k - j ≥ niceLenForOther then
          if search.lastLen ≠ 0 then
            if j > search.lastDist then
              search
            else
              { search with writer := { search.writer with ol := lastOl } }.take
                (k - j) j lineCtr
          else
            search.take (k - j) j lineCtr
        else
          search
      matchLineStarts text l lastOl lineCtr line fuel (j + 1) search

/-- The loop of `matchLine` over the chain, up to a NULL pointer or NULL data. -/
def matchLineNodes (text : List UInt8) (l lastOl : Nat) :
    (nodes : List (Option CString)) → (lineCtr : Nat) → LineSearch → LineSearch
  | some line :: nodes, lineCtr, search =>
      matchLineNodes text l lastOl nodes (lineCtr + 1)
        (matchLineStarts text l lastOl lineCtr line line.strlen 0 search)
  | _, _, search => search

def matchLine (text : List UInt8) (l : Nat) (writer : Writer) (prevLines : LnkLst) :
    Int × Writer :=
  let search := matchLineNodes text l writer.ol (LnkLst.nodes prevLines) 0 ⟨0, 0, 0, writer⟩
  if search.lastLen ≠ 0 then
    ((l : Int) + search.lastLen - 1, search.writer)
  else
    (-(l : Int), search.writer)

/-! ## Back-references -/

def priorMatch (text : List UInt8) (l : Nat) : Option (Nat × Nat) :=
  (List.range l).findSome? fun j =>
    if priorEnd text l j - j > niceLenForPrior - 1 then
      some (priorEnd text l j - j, l - j)
    else
      none

def priorBits (length dist : Nat) : List Bool :=
  codeword 14144 10 ++ countBits (length - niceLenForPrior) ++
    countBits (dist - niceLenForPrior + 1)

private theorem priorEnd_holds {text : List UInt8} {l j : Nat} (k : Nat) (after : j ≤ k)
    (before : k < priorEnd text l j) :
    k < l ∧ l + k - j < text.length ∧ byteAt text k = byteAt text (l + k - j) := by
  have holds := scan_holds after before
  simp only [Bool.and_eq_true, decide_eq_true_eq, beq_iff_eq] at holds
  exact ⟨holds.1.1, holds.1.2, holds.2⟩

/-- What is chosen is a repeat of at least seven bytes that does not overlap
the position it is copied to. -/
theorem priorMatch_sound {text : List UInt8} {l length dist : Nat}
    (found : priorMatch text l = some (length, dist)) :
    niceLenForPrior ≤ length ∧ length ≤ dist ∧ dist ≤ l ∧ l + length ≤ text.length ∧
      ∀ index, index < length → byteAt text (l - dist + index) = byteAt text (l + index) := by
  rcases List.exists_of_findSome?_eq_some found with ⟨j, member, chosen⟩
  rw [List.mem_range] at member
  split at chosen
  · rename_i long
    simp only [Option.some.injEq, Prod.mk.injEq] at chosen
    rcases chosen with ⟨rfl, rfl⟩
    simp only [niceLenForPrior] at long ⊢
    have atLast : priorEnd text l j - 1 < priorEnd text l j := by omega
    have last := priorEnd_holds (priorEnd text l j - 1) (by omega) atLast
    refine ⟨by omega, by omega, by omega, by omega, fun index inside => ?_⟩
    have before : j + index < priorEnd text l j := by omega
    have here := priorEnd_holds (j + index) (Nat.le_add_right j index) before
    have same : l - (l - j) + index = j + index := by omega
    rw [same, here.2.2]
    congr 1
    omega
  · cases chosen

private theorem matchOccuranceLoop_eq (text : List UInt8) (l : Nat) (writer : Writer) :
    ∀ fuel j : Nat, j + fuel = l →
    match (List.range' j fuel).findSome? (fun j =>
      if priorEnd text l j - j > niceLenForPrior - 1 then
        some (priorEnd text l j - j, l - j)
      else
        none) with
    | none => matchOccuranceLoop text l writer fuel j = (-(l : Int), writer)
    | some (length, dist) => ∃ after,
        matchOccuranceLoop text l writer fuel j = ((l : Int) + length - 1, after) ∧
          Appended writer after (priorBits length dist)
  | 0, _, _ => rfl
  | fuel + 1, j, total => by
      rw [List.range'_succ, List.findSome?_cons]
      by_cases long : priorEnd text l j - j > niceLenForPrior - 1
      · simp only [if_pos long, matchOccuranceLoop]
        refine ⟨_, rfl, ?_⟩
        have head := appendBits_appended writer 14144 10 (by omega) .state1
        rw [stateWord_state1] at head
        exact (head.trans (encodeCount_appended _ _)).trans (encodeCount_appended _ _)
      · simp only [if_neg long, matchOccuranceLoop]
        exact matchOccuranceLoop_eq text l writer fuel (j + 1) (by omega)

theorem matchOccurance_of_none {text : List UInt8} {l : Nat} (writer : Writer)
    (nothing : priorMatch text l = none) :
    matchOccurance text l writer = (-(l : Int), writer) := by
  have result := matchOccuranceLoop_eq text l writer l 0 (by omega)
  rw [← List.range_eq_range'] at result
  rw [priorMatch] at nothing
  rw [nothing] at result
  exact result

theorem matchOccurance_of_some {text : List UInt8} {l length dist : Nat} (writer : Writer)
    (found : priorMatch text l = some (length, dist)) :
    ∃ after, matchOccurance text l writer = ((l : Int) + length - 1, after) ∧
      Appended writer after (priorBits length dist) := by
  have result := matchOccuranceLoop_eq text l writer l 0 (by omega)
  rw [← List.range_eq_range'] at result
  rw [priorMatch] at found
  rw [found] at result
  exact result

/-! ## Previous-line references -/

structure LineRef where
  length : Nat
  dist : Nat
  ctx : Nat

def LineRef.bits (ref : LineRef) : List Bool :=
  codeword 14080 10 ++ countBits (ref.length - niceLenForOther) ++ countBits ref.dist ++
    countBits ref.ctx

def lineStarts (text : List UInt8) (l ctx : Nat) (line : CString) (start count : Nat) :
    List LineRef :=
  (List.range' start count).filterMap fun j =>
    if lineEnd text l line j - j ≥ niceLenForOther then
      some ⟨lineEnd text l line j - j, j, ctx⟩
    else
      none

def lineCandidates (text : List UInt8) (l : Nat) : List (Option CString) → Nat → List LineRef
  | some line :: nodes, ctx =>
      lineStarts text l ctx line 0 line.strlen ++ lineCandidates text l nodes (ctx + 1)
  | _, _ => []

/-- A later candidate wins unless its offset is larger. -/
def preferred : Option LineRef → LineRef → Option LineRef
  | none, ref => some ref
  | some best, ref => if ref.dist > best.dist then some best else some ref

def lineMatch (text : List UInt8) (l : Nat) (prevLines : LnkLst) : Option LineRef :=
  (lineCandidates text l (LnkLst.nodes prevLines) 0).foldl preferred none

theorem mem_of_foldl_preferred {refs : List LineRef} {initial : Option LineRef}
    {ref : LineRef} (chosen : refs.foldl preferred initial = some ref) :
    initial = some ref ∨ ref ∈ refs := by
  induction refs generalizing initial with
  | nil => exact Or.inl chosen
  | cons head tail induction =>
      rcases induction chosen with fromHead | member
      · cases initial with
        | none =>
            simp only [preferred, Option.some.injEq] at fromHead
            exact Or.inr (fromHead ▸ List.mem_cons_self)
        | some best =>
            simp only [preferred] at fromHead
            split at fromHead
            · exact Or.inl fromHead
            · rw [Option.some.injEq] at fromHead
              exact Or.inr (fromHead ▸ List.mem_cons_self)
      · exact Or.inr (List.mem_cons_of_mem head member)

private theorem lineEnd_holds {text : List UInt8} {l j : Nat} {line : CString}
    (k : Nat) (after : j ≤ k) (before : k < lineEnd text l line j) :
    k < line.strlen ∧ l + (k - j) < text.length ∧
      byteAt line.chars k = byteAt text (l + (k - j)) := by
  have holds := scan_holds after before
  simp only [Bool.and_eq_true, decide_eq_true_eq, beq_iff_eq] at holds
  exact ⟨holds.1.1, holds.1.2, holds.2⟩

structure LineRef.Sound (text : List UInt8) (l : Nat) (nodes : List (Option CString))
    (ref : LineRef) (line : CString) : Prop where
  long : niceLenForOther ≤ ref.length
  inText : l + ref.length ≤ text.length
  node : nodes[ref.ctx]? = some (some line)
  inLine : ref.dist + ref.length ≤ line.strlen
  same : ∀ index, index < ref.length →
    byteAt line.chars (ref.dist + index) = byteAt text (l + index)

theorem lineStarts_sound {text : List UInt8} {l ctx start count : Nat}
    {line : CString} {ref : LineRef} (member : ref ∈ lineStarts text l ctx line start count)
    {nodes : List (Option CString)} (node : nodes[ctx]? = some (some line)) :
    ref.Sound text l nodes line := by
  rcases List.mem_filterMap.mp member with ⟨j, _, chosen⟩
  split at chosen
  · rename_i long
    rw [Option.some.injEq] at chosen
    subst chosen
    simp only [niceLenForOther] at long
    have atLast : lineEnd text l line j - 1 < lineEnd text l line j := by omega
    have last := lineEnd_holds (lineEnd text l line j - 1) (by omega) atLast
    constructor
    · exact long
    · simp only
      omega
    · exact node
    · simp only
      omega
    · intro index inside
      simp only at inside ⊢
      have before : j + index < lineEnd text l line j := by omega
      have here := lineEnd_holds (j + index) (Nat.le_add_right j index) before
      rw [here.2.2, Nat.add_sub_cancel_left]
  · cases chosen

private theorem lineCandidates_sound {text : List UInt8} {l : Nat} {ref : LineRef}
    {all : List (Option CString)} : ∀ {nodes : List (Option CString)} {ctx : Nat},
    (∀ index, nodes[index]? = all[ctx + index]?) →
    ref ∈ lineCandidates text l nodes ctx → ∃ line, ref.Sound text l all line
  | [], _, _, member => by simp [lineCandidates] at member
  | none :: _, _, _, member => by simp [lineCandidates] at member
  | some line :: nodes, ctx, aligned, member => by
      rw [lineCandidates, List.mem_append] at member
      rcases member with here | later
      · exact ⟨line, lineStarts_sound here (by simpa using (aligned 0).symm)⟩
      · refine lineCandidates_sound (fun index => ?_) later
        have shifted := aligned (index + 1)
        rw [List.getElem?_cons_succ] at shifted
        rw [shifted, Nat.add_assoc, Nat.add_comm 1]

theorem lineMatch_sound {text : List UInt8} {l : Nat} {prevLines : LnkLst} {ref : LineRef}
    (found : lineMatch text l prevLines = some ref) :
    ∃ line, ref.Sound text l (LnkLst.nodes prevLines) line := by
  rcases mem_of_foldl_preferred found with impossible | member
  · cases impossible
  · exact lineCandidates_sound (fun index => by rw [Nat.zero_add]) member

/-- How far `matchLine` has come: the search variables hold the best candidate,
and the buffer holds its bits and nothing else. -/
private def SearchState (start : Writer) (search : LineSearch) : Option LineRef → Prop
  | none => search.lastLen = 0 ∧ search.writer = start
  | some best => niceLenForOther ≤ best.length ∧ search.lastLen = best.length ∧
      search.lastDist = best.dist ∧ Extends start search.writer best.bits

private theorem take_extends (search : LineSearch) (ref : LineRef) :
    Extends search.writer (search.take ref.length ref.dist ref.ctx).writer ref.bits := by
  have head := appendBits_appended search.writer 14080 10 (by omega) .state1
  rw [stateWord_state1] at head
  exact (((head.trans (encodeCount_appended _ _)).trans (encodeCount_appended _ _)).trans
    (encodeCount_appended _ _)).toExtends

/-- A candidate written over an earlier one. Both start with the same ten bits,
which fill the byte in which the writer was reset; every later byte is first
assigned, so no stale bit survives. -/
private theorem take_over_extends {start : Writer} {search : LineSearch} {best : LineRef}
    (ref : LineRef) (written : Extends start search.writer best.bits) :
    Extends start (({ search with writer := { search.writer with ol := start.ol } } :
      LineSearch).take ref.length ref.dist ref.ctx).writer ref.bits := by
  have fresh := take_extends
    { search with writer := { search.writer with ol := start.ol } } ref
  refine ⟨fresh.ol, fun old oldLength packed => ?_⟩
  have carries := (written.packed old oldLength packed).carries
  rw [LineRef.bits, List.append_assoc, List.append_assoc, carries_append, carries_append,
    Nat.zero_add] at carries
  have headLength : (codeword 14080 10).length = 10 := codeword_length (by omega)
  have accepts : Accepts search.writer.bytes old (codeword 14080 10) := by
    refine ⟨carries.1, fun pos beyond sameByte isSet => ?_⟩
    have inHead : pos - old.length < (codeword 14080 10).length := by omega
    rw [List.getElem?_eq_getElem inHead, Option.some.injEq, ← carries.2.1 _ inHead,
      Nat.add_sub_cancel' beyond]
    exact isSet
  have headPacked := appendBits_packed_of_accepts
    { search.writer with ol := start.ol } accepts oldLength (by omega)
  have headOl := (appendBits_appended { search.writer with ol := start.ol } 14080
    10 (by omega) .state1).ol
  rw [stateWord_state1] at headOl
  have counts := ((encodeCount_appended (appendBits { search.writer with ol := start.ol }
    14080 10 .state1) (ref.length - niceLenForOther)).trans
      (encodeCount_appended _ ref.dist)).trans (encodeCount_appended _ ref.ctx)
  have whole := counts.packed (old ++ codeword 14080 10)
    (by rw [headOl, oldLength, List.length_append]) headPacked
  simp only [LineRef.bits, List.append_assoc] at whole ⊢
  exact whole

private theorem matchLineStarts_state {text : List UInt8} {l ctx : Nat} {line : CString}
    {start : Writer} : ∀ {fuel j : Nat} {search : LineSearch} {best : Option LineRef},
    SearchState start search best →
    SearchState start (matchLineStarts text l start.ol ctx line fuel j search)
      ((lineStarts text l ctx line j fuel).foldl preferred best)
  | 0, _, _, _, state => state
  | fuel + 1, j, search, best, state => by
      rw [lineStarts, List.range'_succ, List.filterMap_cons]
      by_cases long : lineEnd text l line j - j ≥ niceLenForOther
      · simp only [matchLineStarts, if_pos long, List.foldl_cons]
        apply matchLineStarts_state
        cases best with
        | none =>
            rcases state with ⟨noneYet, untouched⟩
            simp only [noneYet, ne_eq, not_true, if_false, preferred]
            refine ⟨long, rfl, rfl, ?_⟩
            rw [← untouched]
            exact take_extends search ⟨lineEnd text l line j - j, j, ctx⟩
        | some best =>
            rcases state with ⟨bestLong, lastLen, lastDist, written⟩
            have found : search.lastLen ≠ 0 := by
              simp only [niceLenForOther] at bestLong
              omega
            simp only [ne_eq, found, not_false_eq_true, if_true, preferred, lastDist]
            by_cases farther : j > best.dist
            · simp only [if_pos farther]
              exact ⟨bestLong, lastLen, lastDist, written⟩
            · simp only [if_neg farther]
              exact ⟨long, rfl, rfl,
                take_over_extends ⟨lineEnd text l line j - j, j, ctx⟩ written⟩
      · simp only [matchLineStarts, if_neg long]
        exact matchLineStarts_state state

private theorem matchLineNodes_state {text : List UInt8} {l : Nat} {start : Writer} :
    ∀ (nodes : List (Option CString)) (ctx : Nat) {search : LineSearch}
      {best : Option LineRef}, SearchState start search best →
    SearchState start (matchLineNodes text l start.ol nodes ctx search)
      ((lineCandidates text l nodes ctx).foldl preferred best)
  | [], _, _, _, state => by simpa [matchLineNodes, lineCandidates] using state
  | none :: _, _, _, _, state => by simpa [matchLineNodes, lineCandidates] using state
  | some line :: nodes, ctx, search, best, state => by
      rw [matchLineNodes, lineCandidates, List.foldl_append]
      exact matchLineNodes_state nodes (ctx + 1) (matchLineStarts_state state)

private theorem matchLineSearch_state (text : List UInt8) (l : Nat) (writer : Writer)
    (prevLines : LnkLst) :
    SearchState writer
      (matchLineNodes text l writer.ol (LnkLst.nodes prevLines) 0 ⟨0, 0, 0, writer⟩)
      (lineMatch text l prevLines) :=
  matchLineNodes_state (LnkLst.nodes prevLines) 0 ⟨rfl, rfl⟩

theorem matchLine_of_none {text : List UInt8} {l : Nat} {prevLines : LnkLst}
    (writer : Writer) (nothing : lineMatch text l prevLines = none) :
    matchLine text l writer prevLines = (-(l : Int), writer) := by
  have state := matchLineSearch_state text l writer prevLines
  rw [nothing] at state
  simp [matchLine, state.1, state.2]

theorem matchLine_of_some {text : List UInt8} {l : Nat} {prevLines : LnkLst}
    {ref : LineRef} (writer : Writer) (found : lineMatch text l prevLines = some ref) :
    ∃ after, matchLine text l writer prevLines = ((l : Int) + ref.length - 1, after) ∧
      Extends writer after ref.bits := by
  have state := matchLineSearch_state text l writer prevLines
  rw [found] at state
  rcases state with ⟨long, lastLen, _, written⟩
  have positive : ref.length ≠ 0 := by
    simp only [niceLenForOther] at long
    omega
  refine ⟨_, ?_, written⟩
  simp [matchLine, lastLen, positive]

end EspSqlite.Shox96
