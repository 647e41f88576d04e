import EspSqlite.Shox96.LiteralCost
import EspSqlite.Shox96.References

/-! # The size of the output, from the text

A bound on the bits a text compresses to, byte by byte from the text alone. It is
met where the text has nothing that a run or a back-reference stands for. -/

namespace EspSqlite.Shox96

open BitMemory

/-! ## What may be replaced -/

def runAt (text : List UInt8) (start : Nat) : Bool :=
  decide (start + 4 ≤ text.length) &&
    (List.range 4).all fun index => byteAt text (start + index) == byteAt text start

/-- The seven bytes from `start` on stand before `start` too. -/
def repeatAt (text : List UInt8) (start : Nat) : Bool :=
  decide (start + niceLenForPrior ≤ text.length) &&
    (List.range start).any fun earlier => decide (earlier + niceLenForPrior ≤ start) &&
      (List.range niceLenForPrior).all fun index =>
        byteAt text (earlier + index) == byteAt text (start + index)

/-- A byte that a run or a back-reference may stand for. -/
def replaceable (text : List UInt8) (index : Nat) : Bool :=
  (List.range (index + 1)).any fun start =>
    (decide (index < start + 4) && runAt text start) ||
      (decide (index < start + niceLenForPrior) && repeatAt text start)

/-! ## The states before a byte -/

/-- Whether the digit state is on before a byte, as the literals before it leave it. A
hidden byte leaves it as guessed. -/
def digitsOn (text : List UInt8) (hidden : Nat → Bool) (guess : Bool) : Nat → Bool
  | 0 => false
  | index + 1 =>
      if hidden index then guess
      else isDigit (byteAt text index) ||
        (digitsOn text hidden guess index && inSet2 (digitProbe text index))

def capsOn (text : List UInt8) (hidden : Nat → Bool) (guess : Bool) : Nat → Bool
  | 0 => false
  | index + 1 =>
      if hidden index then guess
      else isUpper (byteAt text index) &&
        (capsOn text hidden guess index || capsScan text index 6 == 0)

/-! ## The bits of a text -/

def statesBefore (text : List UInt8) (index : Nat) : States where
  inDigits := digitsOn text (fun _ => false) false index
  mayBeInDigits := digitsOn text (replaceable text) true index
  inCaps := capsOn text (fun _ => false) false index
  surelyInCaps := capsOn text (replaceable text) false index

/-- The bits of a byte: seven where a reference stands for it, those of a literal where
none can, and the greater number else. The line feed after a carriage return is part of
its code. -/
def byteBits (text : List UInt8) (index : Nat) : Nat :=
  if repeatAt text index ∧ index + niceLenForPrior < text.length then 7
  else if replaceable text index then max 7 (literalBits text index (statesBefore text index))
  else if 0 < index ∧ crlfAhead text (index - 1) = true ∧ replaceable text (index - 1) = false then
    0
  else literalBits text index (statesBefore text index)

def bitsBeforeByte (text : List UInt8) (count : Nat) : Nat :=
  ((List.range count).map (byteBits text)).sum

/-- The bits of a text. A state that is on at its end is not left. -/
def textBits (text : List UInt8) : Nat :=
  bitsBeforeByte text text.length -
    if digitsOn text (replaceable text) false text.length ||
      capsOn text (replaceable text) false text.length then 4 else 0

/-! ## What the text shows of the mode -/

theorem literalMode_state {text : List UInt8} {l : Nat} {mode : Mode} :
    (literalMode text l mode).state = .state2 ↔
      isDigit (byteAt text l) = true ∨
        mode.state = .state2 ∧ inSet2 (digitProbe text l) = true := by
  rw [literalMode]
  split <;> simp_all

theorem digitsOn_succ {text : List UInt8} {hidden : Nat → Bool} {guess : Bool} {index : Nat}
    (shown : hidden index = false) : digitsOn text hidden guess (index + 1) = true ↔
      isDigit (byteAt text index) = true ∨
        digitsOn text hidden guess index = true ∧ inSet2 (digitProbe text index) = true := by
  rw [digitsOn, shown, if_neg Bool.false_ne_true, Bool.or_eq_true, Bool.and_eq_true]

theorem capsOn_succ {text : List UInt8} {hidden : Nat → Bool} {guess : Bool} {index : Nat}
    (shown : hidden index = false) : capsOn text hidden guess (index + 1) = true ↔
      isUpper (byteAt text index) = true ∧
        (capsOn text hidden guess index = true ∨ capsScan text index 6 = 0) := by
  rw [capsOn, shown, if_neg Bool.false_ne_true, Bool.and_eq_true, Bool.or_eq_true, beq_iff_eq]

theorem literalMode_caps {text : List UInt8} {l : Nat} {mode : Mode} :
    (literalMode text l mode).isAllUpper = true ↔
      isUpper (byteAt text l) = true ∧ (mode.isAllUpper = true ∨ capsScan text l 6 = 0) := by
  rw [literalMode, Bool.and_eq_true, Bool.or_eq_true, beq_iff_eq]

/-- What the text shows of the mode at a head. No head splits a carriage return and line
feed that only a literal can stand for. -/
structure Tracks (text : List UInt8) (l : Nat) (mode : Mode) : Prop where
  mayBeInDigits : mode.state = .state2 → digitsOn text (replaceable text) true l = true
  surelyInDigits : digitsOn text (replaceable text) false l = true → mode.state = .state2
  mayBeInCaps : mode.isAllUpper = true → capsOn text (replaceable text) true l = true
  surelyInCaps : capsOn text (replaceable text) false l = true → mode.isAllUpper = true
  lineFeed : 0 < l → crlfAhead text (l - 1) = true → replaceable text (l - 1) = true

theorem Tracks.start (text : List UInt8) : Tracks text 0 .initial := by
  constructor <;> simp [digitsOn, capsOn, Mode.initial]

theorem Tracks.reference {text : List UInt8} {l : Nat} (replaced : replaceable text l = true)
    (mode : Mode) : Tracks text (l + 1) mode := by
  constructor <;> simp [digitsOn, capsOn, replaced]

theorem Tracks.literal {text : List UInt8} {l : Nat} {mode : Mode} (tracks : Tracks text l mode)
    (plain : crlfAhead text l = false) : Tracks text (l + 1) (literalMode text l mode) := by
  cases hidden : replaceable text l
  · constructor
    · rw [literalMode_state, digitsOn_succ hidden]
      exact Or.imp_right (And.imp_left tracks.mayBeInDigits)
    · rw [literalMode_state, digitsOn_succ hidden]
      exact Or.imp_right (And.imp_left tracks.surelyInDigits)
    · rw [literalMode_caps, capsOn_succ hidden]
      exact And.imp_right (Or.imp_left tracks.mayBeInCaps)
    · rw [literalMode_caps, capsOn_succ hidden]
      exact And.imp_right (Or.imp_left tracks.surelyInCaps)
    · rw [Nat.add_sub_cancel, plain]
      exact fun _ impossible => nomatch impossible
  · exact .reference hidden _

theorem crlfAhead_iff {text : List UInt8} {l : Nat} :
    crlfAhead text l = true ↔
      byteAt text l = 13 ∧ l + 1 < text.length ∧ byteAt text (l + 1) = 10 := by
  simp [crlfAhead, and_assoc]

private theorem lineEnd_facts : ∀ c : UInt8, c = 13 ∨ c = 10 →
    isDigit c = false ∧ isUpper c = false ∧ inSet2 c = false ∧ c ≠ 32 :=
  forall_byte (by decide +kernel)

theorem Tracks.crlf {text : List UInt8} {l : Nat} (mode : Mode)
    (crlf : crlfAhead text l = true) : Tracks text (l + 2) (literalMode text l mode) := by
  rcases crlfAhead_iff.mp crlf with ⟨isReturn, _, isFeed⟩
  rcases lineEnd_facts _ (Or.inl isReturn) with ⟨notDigit, notUpper, notSet, notSpace⟩
  rcases lineEnd_facts _ (Or.inr isFeed) with ⟨notDigit', notUpper', notSet', notSpace'⟩
  cases hidden : replaceable text (l + 1)
  · constructor
    · simp [literalMode_state, digitProbe_of_ne notSpace, notDigit, notSet]
    · simp [digitsOn_succ hidden, digitProbe_of_ne notSpace', notDigit', notSet']
    · simp [literalMode_caps, notUpper]
    · simp [capsOn_succ hidden, notUpper']
    · intro _ again
      have isReturn := (crlfAhead_iff.mp again).1
      change byteAt text (l + 1) = 13 at isReturn
      rw [isFeed] at isReturn
      exact absurd isReturn (by decide)
  · exact .reference hidden _

/-! ## States entered again -/

def Entered (text : List UInt8) (l : Nat) (mode : Mode) : Prop :=
  (digitsOn text (fun _ => false) false l = true → mode.state = .state2) ∧
    (capsOn text (fun _ => false) false l = true → mode.isAllUpper = true)

instance (text : List UInt8) (l : Nat) (mode : Mode) : Decidable (Entered text l mode) :=
  inferInstanceAs (Decidable (_ ∧ _))

/-- What a reference leaves to pay: one of the states may have to be entered again. -/
def owed (text : List UInt8) (l : Nat) (mode : Mode) : Nat :=
  if Entered text l mode then 0 else 12

theorem Entered.literal {text : List UInt8} {l : Nat} {mode : Mode}
    (entered : Entered text l mode) : Entered text (l + 1) (literalMode text l mode) := by
  constructor
  · rw [digitsOn_succ rfl, literalMode_state]
    exact Or.imp_right (And.imp_left entered.1)
  · rw [capsOn_succ rfl, literalMode_caps]
    exact And.imp_right (Or.imp_left entered.2)

theorem entered_of_digit {text : List UInt8} {l : Nat} (mode : Mode)
    (digit : isDigit (byteAt text l) = true) : Entered text (l + 1) (literalMode text l mode) := by
  constructor
  · exact fun _ => literalMode_state.mpr (Or.inl digit)
  · rw [capsOn_succ rfl, (digit_facts _ digit).1]
    exact fun impossible => absurd impossible.1 Bool.false_ne_true

theorem entered_of_upper {text : List UInt8} {l : Nat} (mode : Mode)
    (upper : isUpper (byteAt text l) = true) (scan : capsScan text l 6 = 0) :
    Entered text (l + 1) (literalMode text l mode) := by
  rcases upper_facts _ upper with ⟨notSet, _, notSpace, _, _, notDigit, _⟩
  constructor
  · simp [digitsOn_succ, digitProbe_of_ne notSpace, notDigit, notSet]
  · exact fun _ => literalMode_caps.mpr ⟨upper, Or.inr scan⟩

theorem entered_of_crlf {text : List UInt8} {l : Nat} (mode : Mode)
    (crlf : crlfAhead text l = true) : Entered text (l + 2) mode := by
  rcases lineEnd_facts _ (Or.inr (crlfAhead_iff.mp crlf).2.2) with
    ⟨notDigit, notUpper, notSet, notSpace⟩
  constructor
  · simp [digitsOn_succ, digitProbe_of_ne notSpace, notDigit, notSet]
  · simp [capsOn_succ, notUpper]

private theorem owed_covers {text : List UInt8} {l : Nat} {mode : Mode} {isOn shownOn : Bool}
    (bits : Nat) (few : bits ≤ 12) (on : Entered text l mode → shownOn = true → isOn = true) :
    (if isOn then 0 else bits) ≤ (if shownOn then 0 else bits) + owed text l mode := by
  rw [owed]
  split
  · omega
  · split
    · rename_i off shown
      rw [if_neg fun entered => off (on entered shown)]
      omega
    · omega

theorem owed_literal_le (text : List UInt8) (l : Nat) (mode : Mode) :
    owed text (l + 1) (literalMode text l mode) ≤ owed text l mode := by
  rw [owed, owed]
  split
  · exact Nat.zero_le _
  · rename_i notEntered
    rw [if_neg fun entered => notEntered (Entered.literal entered)]

/-- A literal takes no more bits than the text shows, but for what a reference before it
has left to pay. -/
theorem literalBits_owed {text : List UInt8} {l : Nat} {mode : Mode}
    (tracks : Tracks text l mode) (plain : crlfAhead text l = false) :
    literalBits text l mode.states + owed text (l + 1) (literalMode text l mode) ≤
      literalBits text l (statesBefore text l) + owed text l mode := by
  have remains := owed_literal_le text l mode
  simp only [literalBits, plain, Bool.false_eq_true, if_false]
  by_cases digit : isDigit (byteAt text l) = true
  · have entering : (if mode.states.inDigits = true then 0 else 7 + 4) ≤
        (if (statesBefore text l).inDigits = true then 0 else 7 + 4) + owed text l mode :=
      owed_covers (7 + 4) (by omega) fun entered shown => decide_eq_true (entered.1 shown)
    have paid : owed text (l + 1) (literalMode text l mode) = 0 :=
      if_pos (entered_of_digit mode digit)
    rw [if_pos digit, if_pos digit, paid]
    omega
  rw [if_neg digit, if_neg digit]
  by_cases upper : isUpper (byteAt text l) = true
  · rw [if_pos upper, if_pos upper]
    by_cases scan : capsScan text l 6 = 0
    · have entering : (if mode.states.inCaps = true then 0 else 8 + 4) ≤
          (if (statesBefore text l).inCaps = true then 0 else 8 + 4) + owed text l mode :=
        owed_covers (8 + 4) (by omega) fun entered shown => entered.2 shown
      have paid : owed text (l + 1) (literalMode text l mode) = 0 :=
        if_pos (entered_of_upper mode upper scan)
      rw [if_pos scan, if_pos scan, paid]
      omega
    · have lower := (upper_facts _ upper).2.2.2.2.2.2.2.2
      have less : l_95.getD ((byteAt text l - 32).toNat +
            if mode.states.surelyInCaps = true then 32 else 0) 0 ≤
          l_95.getD ((byteAt text l - 32).toNat +
            if (statesBefore text l).surelyInCaps = true then 32 else 0) 0 := by
        by_cases surely : (statesBefore text l).surelyInCaps = true
        · have isOn : mode.states.surelyInCaps = true := tracks.surelyInCaps surely
          rw [if_pos surely, if_pos isOn]
        · rw [if_neg surely, Nat.add_zero, lower]
          split
          · omega
          · rw [Nat.add_zero, lower]
      rw [if_neg scan, if_neg scan]
      omega
  rw [if_neg upper, if_neg upper]
  by_cases space : byteAt text l = 32
  · have less : (if (mode.states.mayBeInDigits && inSet2 (digitProbe text l)) = true then 11
          else 3) ≤
        if ((statesBefore text l).mayBeInDigits && inSet2 (digitProbe text l)) = true then 11
          else 3 := by
      split
      · rename_i isOn
        rw [Bool.and_eq_true] at isOn
        have mayBe := tracks.mayBeInDigits (of_decide_eq_true isOn.1)
        rw [if_pos (Bool.and_eq_true _ _ ▸ ⟨mayBe, isOn.2⟩)]
      · split <;> omega
    rw [if_pos space, if_pos space]
    omega
  · rw [if_neg space, if_neg space]
    exact Nat.add_le_add_left remains _

/-! ## References -/

theorem runAt_iff {text : List UInt8} {start : Nat} : runAt text start = true ↔
    start + 4 ≤ text.length ∧
      ∀ index < 4, byteAt text (start + index) = byteAt text start := by
  simp [runAt]

theorem repeatAt_iff {text : List UInt8} {start : Nat} : repeatAt text start = true ↔
    start + niceLenForPrior ≤ text.length ∧ ∃ earlier, earlier + niceLenForPrior ≤ start ∧
      ∀ index < niceLenForPrior, byteAt text (earlier + index) = byteAt text (start + index) := by
  simp only [repeatAt, Bool.and_eq_true, decide_eq_true_eq, List.any_eq_true, List.all_eq_true,
    List.mem_range, beq_iff_eq]
  refine and_congr_right fun _ => exists_congr fun earlier => and_iff_right_of_imp fun apart => ?_
  simp only [niceLenForPrior] at apart
  omega

theorem replaceable_iff {text : List UInt8} {index : Nat} : replaceable text index = true ↔
    ∃ start ≤ index, (index < start + 4 ∧ runAt text start = true) ∨
      (index < start + niceLenForPrior ∧ repeatAt text start = true) := by
  simp [replaceable, Nat.lt_succ_iff]

private theorem exists_window {width length index : Nat} (positive : 0 < width)
    (wide : width ≤ length) (inside : index < length) :
    ∃ offset ≤ index, index < offset + width ∧ offset + width ≤ length := by
  by_cases early : index + width ≤ length
  · exact ⟨index, by omega, by omega, early⟩
  · exact ⟨length - width, by omega, by omega, by omega⟩

theorem replaceable_of_run {text : List UInt8} {l : Nat} {cPrev : UInt8}
    (ahead : runAhead text l cPrev = true) {index : Nat} (inside : index < runLength text l) :
    replaceable text (l + index) = true := by
  rcases runLength_spec ahead with ⟨four, inText, _, same⟩
  rcases exists_window (by omega) four inside with ⟨offset, before, after, fits⟩
  refine replaceable_iff.mpr ⟨l + offset, by omega, Or.inl ⟨by omega, ?_⟩⟩
  refine runAt_iff.mpr ⟨by omega, fun place small => ?_⟩
  rw [Nat.add_assoc, same _ (by omega), same offset (by omega)]

theorem replaceable_of_prior {text : List UInt8} {switches : Switches} {l length dist : Nat}
    (found : planPrior text switches l = some (length, dist)) {index : Nat}
    (inside : index < length) : replaceable text (l + index) = true := by
  rcases planPrior_sound found with ⟨long, apart, inPast, inText, same⟩
  simp only [niceLenForPrior] at long
  rcases exists_window (by omega) long inside with ⟨offset, before, after, fits⟩
  refine replaceable_iff.mpr ⟨l + offset, by omega,
    Or.inr ⟨by simp only [niceLenForPrior]; omega, ?_⟩⟩
  simp only [repeatAt_iff, niceLenForPrior]
  refine ⟨by omega, l - dist + offset, by omega, fun place small => ?_⟩
  rw [Nat.add_assoc, same _ (by omega), Nat.add_assoc]

/-- A literal stands only where nothing is repeated, but for the last bytes. -/
theorem not_repeatAt_of_literal {text : List UInt8} {l : Nat}
    (nothing : planPrior text shippedSwitches l = none) :
    ¬(repeatAt text l = true ∧ l + niceLenForPrior < text.length) := by
  intro both
  rcases repeatAt_iff.mp both.1 with ⟨inside, earlier, inPast, same⟩
  rw [planPrior, if_pos ⟨both.2, rfl⟩] at nothing
  exact not_repeated_of_priorMatch nothing inside inPast same

/-! ## The bits of the passes -/

theorem bitsBeforeByte_succ (text : List UInt8) (count : Nat) :
    bitsBeforeByte text (count + 1) = bitsBeforeByte text count + byteBits text count := by
  simp [bitsBeforeByte, List.range_succ]

/-- Seven bits are charged for each byte that may be replaced. -/
theorem bitsBeforeByte_replaceable {text : List UInt8} {l : Nat} :
    ∀ {length : Nat}, (∀ index < length, replaceable text (l + index) = true) →
    bitsBeforeByte text l + 7 * length ≤ bitsBeforeByte text (l + length)
  | 0, _ => Nat.le_refl _
  | length + 1, replaced => by
      have before := bitsBeforeByte_replaceable fun index (inside : index < length) =>
        replaced index (by omega)
      have charged : 7 ≤ byteBits text (l + length) := by
        rw [byteBits, if_pos (replaced length (by omega))]
        split <;> omega
      rw [← Nat.add_assoc, bitsBeforeByte_succ]
      omega

theorem byteBits_of_literal {text : List UInt8} {l : Nat} {mode : Mode}
    (tracks : Tracks text l mode)
    (notRepeated : ¬(repeatAt text l = true ∧ l + niceLenForPrior < text.length)) :
    literalBits text l (statesBefore text l) ≤ byteBits text l := by
  rw [byteBits, if_neg notRepeated]
  split
  · exact Nat.le_max_right _ _
  · rw [if_neg fun lineFeed => ?_]
    rw [tracks.lineFeed lineFeed.1 lineFeed.2.1] at lineFeed
    exact absurd lineFeed.2.2 (by decide)

private theorem countCost_le (count : Nat) : countCost count ≤ 21 := by
  rw [countCost]
  repeat' split
  all_goals omega

/-- A run, with what it leaves to pay, takes no more than seven bits a byte. -/
theorem run_cost {count : Nat} (mode : Mode) (four : 4 ≤ count) :
    (Sym.run count).cost mode + 12 ≤ 7 * count := by
  rw [Sym.cost, countCost]
  repeat' split
  all_goals omega

theorem back_cost {length dist : Nat} (mode : Mode) (long : niceLenForPrior ≤ length) :
    (Sym.back length dist).cost mode + 12 ≤ 7 * length := by
  have dist := countCost_le (dist - niceLenForPrior + 1)
  rw [Sym.cost]
  simp only [niceLenForPrior] at long dist ⊢
  rw [countCost]
  repeat' split
  all_goals omega

/-- A head's bits are within those of the text before it. What leaving and entering
states again will take is charged already. -/
structure Charged (text : List UInt8) (c : Control) (syms : List Sym) : Prop where
  tracks : Tracks text c.l c.toMode
  within : symsCost .initial syms + c.toMode.pending + owed text c.l c.toMode ≤
    bitsBeforeByte text c.l

theorem Charged.start (text : List UInt8) : Charged text .initial [] where
  tracks := .start text
  within := by
    have entered : Entered text 0 .initial := by constructor <;> simp [digitsOn, capsOn]
    have paid : owed text Control.initial.l Control.initial.toMode = 0 := if_pos entered
    rw [paid]
    exact Nat.zero_le _

/-- A reference pays for itself and for the state that must be entered again after it. -/
theorem Charged.reference {text : List UInt8} {c : Control} {syms : List Sym}
    (charged : Charged text c syms) {sym : Sym} {length : Nat} (positive : 0 < length)
    (replaced : ∀ index < length, replaceable text (c.l + index) = true)
    (cheap : sym.cost c.toMode + 12 ≤ 7 * length) {next : Control} (isL : next.l = c.l + length)
    (sameMode : next.toMode = c.toMode) (mode : symsMode .initial syms = c.toMode) :
    Charged text next (syms ++ [sym]) where
  tracks := by
    have isNext : c.l + length = c.l + (length - 1) + 1 := by omega
    rw [isL, sameMode, isNext]
    exact .reference (replaced _ (by omega)) _
  within := by
    have within := charged.within
    have covered := bitsBeforeByte_replaceable replaced
    have owes : owed text (c.l + length) c.toMode ≤ 12 := by
      rw [owed]
      split <;> omega
    rw [isL, sameMode, symsCost_append, mode, symsCost, symsCost]
    omega

theorem Charged.literal {text : List UInt8} {c : Control} {syms : List Sym}
    (charged : Charged text c syms) (nothing : planPrior text shippedSwitches c.l = none)
    {next : Control} (isL : next.l = c.l + if crlfAhead text c.l then 2 else 1)
    (isMode : next.toMode = symsMode c.toMode (literalSyms text c.l c.toMode))
    (mode : symsMode .initial syms = c.toMode) :
    Charged text next (syms ++ literalSyms text c.l c.toMode) := by
  rcases literalSyms_cost text c.l c.toMode with ⟨literal, cost⟩
  have within := charged.within
  have byte := byteBits_of_literal charged.tracks (not_repeatAt_of_literal nothing)
  rw [literal] at isMode
  cases crlf : crlfAhead text c.l
  · rw [crlf, if_neg Bool.false_ne_true] at isL
    refine ⟨by rw [isL, isMode]; exact charged.tracks.literal crlf, ?_⟩
    have settled := literalBits_owed charged.tracks crlf
    rw [isL, isMode, symsCost_append, mode, bitsBeforeByte_succ]
    omega
  · rw [crlf, if_pos rfl] at isL
    refine ⟨by rw [isL, isMode]; exact .crlf _ crlf, ?_⟩
    have paid : owed text (c.l + 2) (literalMode text c.l c.toMode) = 0 :=
      if_pos (entered_of_crlf _ crlf)
    have same : literalBits text c.l c.toMode.states =
        literalBits text c.l (statesBefore text c.l) := by
      rw [literalBits, literalBits, crlf, if_pos rfl, if_pos rfl]
    rw [isL, isMode, symsCost_append, mode, paid, bitsBeforeByte_succ, bitsBeforeByte_succ]
    omega

theorem Planned.charged {text : List UInt8} {c : Control} {syms : List Sym}
    (planned : Planned text shippedSwitches none c syms) : Charged text c syms := by
  induction planned with
  | start => exact .start text
  | @pass c syms planned more induction =>
      have mode := planned.mode.symm
      have noLine : planLine text shippedSwitches none c.l = none := by
        rw [planLine]
        split <;> rfl
      rw [passNext, passSyms]
      split
      · rename_i ahead
        have four := (runLength_spec ahead).1
        exact induction.reference (by omega) (fun _ => replaceable_of_run ahead)
          (run_cost _ four) rfl rfl mode
      · cases found : planPrior text shippedSwitches c.l with
        | some chosen =>
            rcases chosen with ⟨length, dist⟩
            have long := (planPrior_sound found).1
            exact induction.reference (Nat.lt_of_lt_of_le (by decide) long)
              (fun _ => replaceable_of_prior found) (back_cost _ long) rfl rfl mode
        | none =>
            simp only [noLine]
            exact induction.literal found rfl rfl mode

/-- The codes of a text take no more bits than the text shows. -/
theorem Planned.cost_le {text : List UInt8} {c : Control} {syms : List Sym}
    (planned : Planned text shippedSwitches none c syms) (atEnd : c.l = text.length) :
    symsCost .initial syms ≤ textBits text := by
  rcases planned.charged with ⟨tracks, within⟩
  rw [atEnd] at tracks within
  rw [textBits]
  split
  · rename_i surely
    have on : 4 ≤ c.toMode.pending := by
      rw [Mode.pending]
      rcases Bool.or_eq_true _ _ ▸ surely with digits | caps
      · rw [if_pos (tracks.surelyInDigits digits)]
        omega
      · rw [if_pos (tracks.surelyInCaps caps)]
        omega
    omega
  · omega

/-! ## Texts without references -/

def Unreplaceable (text : List UInt8) : Prop :=
  ∀ index < text.length, replaceable text index = false

instance (text : List UInt8) : Decidable (Unreplaceable text) :=
  inferInstanceAs (Decidable (∀ index < text.length, replaceable text index = false))

theorem capsOn_of_digitsOn {text : List UInt8} :
    ∀ {l : Nat}, digitsOn text (fun _ => false) false l = true →
      capsOn text (fun _ => false) false l = false
  | 0, _ => rfl
  | l + 1, inDigits => by
      rw [← Bool.not_eq_true, capsOn_succ rfl]
      intro inCaps
      rcases upper_facts _ inCaps.1 with ⟨notSet, _, notSpace, _, _, notDigit, _⟩
      rw [digitsOn_succ rfl, digitProbe_of_ne notSpace, notDigit, notSet] at inDigits
      simp at inDigits

section Unreplaceable

variable {text : List UInt8} (plain : Unreplaceable text)

include plain

theorem Unreplaceable.digitsOn_eq (guess : Bool) :
    ∀ {l : Nat}, l ≤ text.length →
      digitsOn text (replaceable text) guess l = digitsOn text (fun _ => false) false l
  | 0, _ => rfl
  | l + 1, inside => by
      rw [digitsOn, digitsOn, plain l inside, Unreplaceable.digitsOn_eq guess (Nat.le_of_lt inside)]
      rfl

theorem Unreplaceable.capsOn_eq (guess : Bool) :
    ∀ {l : Nat}, l ≤ text.length →
      capsOn text (replaceable text) guess l = capsOn text (fun _ => false) false l
  | 0, _ => rfl
  | l + 1, inside => by
      rw [capsOn, capsOn, plain l inside, Unreplaceable.capsOn_eq guess (Nat.le_of_lt inside)]
      rfl

theorem Unreplaceable.states_eq {l : Nat} {mode : Mode} (tracks : Tracks text l mode)
    (inside : l ≤ text.length) : mode.states = statesBefore text l := by
  have digits : decide (mode.state = .state2) = digitsOn text (fun _ => false) false l := by
    rw [Bool.eq_iff_iff, decide_eq_true_iff]
    exact ⟨fun on => plain.digitsOn_eq true inside ▸ tracks.mayBeInDigits on,
      fun on => tracks.surelyInDigits (plain.digitsOn_eq false inside ▸ on)⟩
  have caps : mode.isAllUpper = capsOn text (fun _ => false) false l := by
    rw [Bool.eq_iff_iff]
    exact ⟨fun on => plain.capsOn_eq true inside ▸ tracks.mayBeInCaps on,
      fun on => tracks.surelyInCaps (plain.capsOn_eq false inside ▸ on)⟩
  rw [Mode.states, statesBefore, digits, caps, plain.digitsOn_eq true inside,
    plain.capsOn_eq false inside]

theorem Unreplaceable.byteBits_eq {l : Nat} (inside : l < text.length) :
    byteBits text l =
      if 0 < l ∧ crlfAhead text (l - 1) = true then 0
      else literalBits text l (statesBefore text l) := by
  have notRepeated : ¬(repeatAt text l = true ∧ l + niceLenForPrior < text.length) := by
    intro both
    have replaced : replaceable text l = true :=
      replaceable_iff.mpr ⟨l, Nat.le_refl l, Or.inr ⟨by simp only [niceLenForPrior]; omega, both.1⟩⟩
    exact Bool.false_ne_true ((plain l inside).symm.trans replaced)
  rw [byteBits, if_neg notRepeated, plain l inside, if_neg Bool.false_ne_true]
  simp only [plain (l - 1) (by omega), and_true]

theorem Unreplaceable.cost {c : Control} {syms : List Sym}
    (planned : Planned text shippedSwitches none c syms) :
    symsCost .initial syms + c.toMode.pending = bitsBeforeByte text c.l := by
  induction planned with
  | start => rfl
  | @pass c syms planned more induction =>
      have tracks := planned.charged.tracks
      have mode := planned.mode.symm
      have noRun : runAhead text c.l c.cPrev = false := by
        by_contra ahead
        rw [Bool.not_eq_false] at ahead
        have first : 0 < runLength text c.l := by
          have four := (runLength_spec ahead).1
          omega
        exact Bool.false_ne_true ((plain c.l more).symm.trans (replaceable_of_run ahead first))
      have noPrior : planPrior text shippedSwitches c.l = none := by
        cases found : planPrior text shippedSwitches c.l with
        | none => rfl
        | some chosen =>
            rcases chosen with ⟨length, dist⟩
            have first : 0 < length := Nat.lt_of_lt_of_le (by decide) (planPrior_sound found).1
            exact absurd ((plain c.l more).symm.trans (replaceable_of_prior found first))
              Bool.false_ne_true
      have noLine : planLine text shippedSwitches none c.l = none := by
        rw [planLine]
        split <;> rfl
      have notFeed : ¬(0 < c.l ∧ crlfAhead text (c.l - 1) = true) := fun feed =>
        Bool.false_ne_true ((plain (c.l - 1) (by omega)).symm.trans (tracks.lineFeed feed.1 feed.2))
      have byte := plain.byteBits_eq more
      rcases literalSyms_cost text c.l c.toMode with ⟨literal, cost⟩
      rw [plain.states_eq tracks (Nat.le_of_lt more)] at cost
      rw [if_neg notFeed] at byte
      simp only [passNext, passSyms, noRun, Bool.false_eq_true, if_false, noPrior, noLine]
      rw [symsCost_append, mode, literal]
      cases crlf : crlfAhead text c.l
      · rw [if_neg Bool.false_ne_true, bitsBeforeByte_succ]
        omega
      · have feed := plain.byteBits_eq (crlfAhead_iff.mp crlf).2.1
        rw [Nat.add_sub_cancel, if_pos ⟨Nat.succ_pos _, crlf⟩] at feed
        rw [if_pos rfl, bitsBeforeByte_succ, bitsBeforeByte_succ]
        omega

theorem Unreplaceable.cost_eq {c : Control} {syms : List Sym}
    (planned : Planned text shippedSwitches none c syms) (atEnd : c.l = text.length) :
    symsCost .initial syms = textBits text := by
  have cost := plain.cost planned
  have states := plain.states_eq planned.charged.tracks (Nat.le_of_eq atEnd)
  rw [atEnd] at cost states
  have digits : decide (c.toMode.state = .state2) = digitsOn text (fun _ => false) false
      text.length := congrArg States.inDigits states
  have caps : c.toMode.isAllUpper = capsOn text (fun _ => false) false text.length :=
    congrArg States.inCaps states
  have apart (inDigits : c.toMode.state = .state2) : c.toMode.isAllUpper = false := by
    rw [caps]
    exact capsOn_of_digitsOn (digits.symm.trans (decide_eq_true inDigits))
  rw [textBits, plain.digitsOn_eq false (Nat.le_refl _), plain.capsOn_eq false (Nat.le_refl _),
    ← digits, ← caps]
  rw [Mode.pending] at cost
  by_cases inDigits : c.toMode.state = .state2
  · rw [if_pos inDigits, apart inDigits] at cost
    simp [inDigits, ← cost]
  · rw [if_neg inDigits] at cost
    cases inCaps : c.toMode.isAllUpper <;> simp [inDigits, inCaps, ← cost]

end Unreplaceable

-- `Z7Z8X7X8V7V8Z8`
example : Unreplaceable [90, 55, 90, 56, 88, 55, 88, 56, 86, 55, 86, 56, 90, 56] ∧
    textBits [90, 55, 90, 56, 88, 55, 88, 56, 86, 55, 86, 56, 90, 56] = 235 := by
  decide +kernel

end EspSqlite.Shox96
