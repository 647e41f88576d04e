import EspSqlite.Shox96.RoundTrip

/-! # Reads of the output

Which indexes of its output buffer the decompressor reads, for texts of any
bytes. A byte without a code still takes part in runs and references, so that
these may reach before the output. -/

namespace EspSqlite.Shox96

/-! ## Reads of symbols -/

def OutBuffer.ReadsInside (out : OutBuffer) : Prop :=
  ∀ read ∈ out.reads, 0 ≤ read.1 ∧ read.1 < (read.2 : Int)

def Sym.Inside (ol : Nat) : Sym → Prop
  | .run _ => 0 < ol
  | .back length dist => ∀ index < length, dist ≤ ol + index ∧ index < dist
  | _ => True

def SymsInside : Nat → List Sym → Prop
  | _, [] => True
  | ol, sym :: rest => sym.Inside ol ∧ SymsInside (ol + sym.width) rest

theorem symsInside_append {ol : Nat} {left right : List Sym} :
    SymsInside ol (left ++ right) ↔
      SymsInside ol left ∧ SymsInside (ol + symsWidth left) right := by
  induction left generalizing ol with
  | nil => simp [SymsInside]
  | cons sym left induction =>
      simp only [List.cons_append, SymsInside, induction, and_assoc, symsWidth_cons,
        Nat.add_assoc]

theorem symsInside_of_isSwitch {syms : List Sym} (switches : ∀ sym ∈ syms, sym.isSwitch = true) :
    ∀ ol, SymsInside ol syms := by
  induction syms with
  | nil => exact fun _ => trivial
  | cons sym rest induction =>
      intro ol
      refine ⟨?_, induction (fun other member => switches other
        (List.mem_cons_of_mem sym member)) _⟩
      have isSwitch := switches sym List.mem_cons_self
      cases sym <;> trivial

private theorem OutBuffer.putMany_reads (value : UInt8) : ∀ (count : Nat) (out : OutBuffer),
    (out.putMany value count).reads = out.reads
  | 0, _ => rfl
  | count + 1, out => OutBuffer.putMany_reads value count (out.put value)

theorem Sym.apply_readsInside (nodes : List (Option CString)) (out : OutBuffer) (sym : Sym) :
    (sym.apply nodes out).ReadsInside ↔ out.ReadsInside ∧ sym.Inside out.ol := by
  cases sym with
  | run count =>
      have reads : (Sym.apply nodes out (.run count)).reads =
          ((out.ol : Int) - 1, out.ol) :: out.reads :=
        OutBuffer.putMany_reads _ count _
      simp only [OutBuffer.ReadsInside, reads, List.forall_mem_cons, Sym.Inside]
      refine Iff.trans and_comm (and_congr_right fun _ => ?_)
      omega
  | back length dist =>
      simp only [OutBuffer.ReadsInside, Sym.apply, OutBuffer.copyBack, List.forall_mem_append,
        List.forall_mem_map, List.mem_range, Sym.Inside]
      refine Iff.trans and_comm (and_congr_right fun _ => forall_congr' fun index =>
        forall_congr' fun _ => ?_)
      omega
  | _ => exact (and_true _).symm.to_iff

theorem symsApply_readsInside (nodes : List (Option CString)) (syms : List Sym) :
    ∀ out : OutBuffer, (symsApply nodes out syms).ReadsInside ↔
      out.ReadsInside ∧ SymsInside out.ol syms := by
  induction syms with
  | nil => exact fun out => (and_true _).symm.to_iff
  | cons sym rest induction =>
      intro out
      rw [SymsInside, ← and_assoc, ← sym.apply_readsInside nodes, ← (sym.apply_grown nodes out).ol]
      exact induction (sym.apply nodes out)

/-! ## Reads of a plan -/

def PassInside (text : List UInt8) (switches : Switches) (c : Control) (produced : Nat) : Prop :=
  if runAhead text c.l c.cPrev then 0 < produced
  else ∀ length dist, planPrior text switches c.l = some (length, dist) → dist ≤ produced

theorem passSyms_inside_iff {text : List UInt8} {switches : Switches}
    {prevLines : Option LnkLst} {c : Control} {produced : Nat} :
    SymsInside produced (passSyms text switches prevLines c) ↔
      PassInside text switches c produced := by
  rw [passSyms, PassInside]
  split
  · exact and_true _ |>.to_iff
  · split
    · rename_i length dist found
      have sound := planPrior_sound found
      simp only [niceLenForPrior] at sound
      simp only [found, Option.some.injEq, Prod.mk.injEq, SymsInside, Sym.Inside, and_true]
      constructor
      · intro inside _ _ both
        rcases both with ⟨rfl, rfl⟩
        exact (inside 0 (by omega)).1
      · intro reaches index inLength
        have near := reaches length dist ⟨rfl, rfl⟩
        omega
    · rename_i noPrior
      simp only [noPrior]
      refine iff_of_true ?_ (fun _ _ found => by cases found)
      split
      · exact ⟨trivial, trivial⟩
      · rw [literalSyms, symsInside_append]
        refine ⟨symsInside_of_isSwitch (fun _ => isSwitch_of_mem_switchSyms) _, ?_⟩
        rw [charSyms]
        split
        · exact ⟨trivial, trivial⟩
        · split
          · exact ⟨trivial, trivial⟩
          · trivial

theorem Planned.inside_iff {text : List UInt8} {switches : Switches}
    {prevLines : Option LnkLst} {final : Control} {finalSyms : List Sym}
    (finished : Planned text switches prevLines final finalSyms)
    (atEnd : final.l = text.length) :
    SymsInside 0 finalSyms ↔ ∀ c syms, Planned text switches prevLines c syms →
      c.l < text.length → PassInside text switches c (symsWidth syms) := by
  constructor
  · intro inside c syms planned more
    rcases planned.partOf more finished atEnd.ge with ⟨rest, parts⟩
    rw [parts, List.append_assoc, symsInside_append, symsInside_append, Nat.zero_add] at inside
    exact passSyms_inside_iff.mp inside.2.1
  · intro inside
    have every : ∀ c syms, Planned text switches prevLines c syms → SymsInside 0 syms := by
      intro c syms planned
      induction planned with
      | start => trivial
      | @pass c syms planned more induction =>
          rw [symsInside_append, Nat.zero_add]
          exact ⟨induction, passSyms_inside_iff.mpr (inside c syms planned more)⟩
    exact every final finalSyms finished

theorem Planned.passInside {text : List UInt8} {switches : Switches}
    {prevLines : Option LnkLst} {c : Control} {syms : List Sym}
    (planned : Planned text switches prevLines c syms) (supportedText : SupportedText text) :
    PassInside text switches c (symsWidth syms) := by
  rw [planned.width supportedText, PassInside]
  split
  · rename_i isRun
    exact planned.runAhead_pos supportedText isRun
  · intro length dist found
    exact (planPrior_sound found).2.2.1

end EspSqlite.Shox96
