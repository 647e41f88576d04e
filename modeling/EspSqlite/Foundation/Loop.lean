import Mathlib.Logic.Relation

namespace EspSqlite

/-! # Loops

A `while` loop is a step function on the states at the loop head. A step either
goes round to the next head, leaves the loop, or has no defined meaning. -/

inductive Outcome (State : Type) where
  | next (state : State)
  | stop
  | fault

namespace Loop

variable {State : Type} {step : State → Outcome State}

def run (step : State → Outcome State) : (fuel : Nat) → State → Option State
  | 0, _ => none
  | fuel + 1, state =>
      match step state with
      | .next following => run step fuel following
      | .stop => some state
      | .fault => none

def Reaches (step : State → Outcome State) : State → State → Prop :=
  Relation.ReflTransGen fun state following => step state = .next following

theorem Reaches.refl (state : State) : Reaches step state state :=
  Relation.ReflTransGen.refl

theorem Reaches.trans {first second third : State}
    (left : Reaches step first second) (right : Reaches step second third) :
    Reaches step first third :=
  Relation.ReflTransGen.trans left right

theorem Reaches.single {state following : State}
    (taken : step state = .next following) : Reaches step state following :=
  Relation.ReflTransGen.single taken

theorem Reaches.tail {first second third : State}
    (left : Reaches step first second) (taken : step second = .next third) :
    Reaches step first third :=
  Relation.ReflTransGen.tail left taken

theorem Reaches.invariant (Invariant : State → Prop) {initial final : State}
    (reaches : Reaches step initial final) (holds : Invariant initial)
    (preserved : ∀ state following, Reaches step initial state →
      step state = .next following → Invariant state → Invariant following) :
    Invariant final := by
  induction reaches with
  | refl => exact holds
  | tail earlier taken induction => exact preserved _ _ earlier taken induction

theorem Reaches.of_stop {initial state final : State} (reaches : Reaches step initial state)
    (reachesFinal : Reaches step initial final) (stops : step final = .stop) :
    Reaches step state final := by
  have unique : Relator.RightUnique fun state following : State =>
      step state = .next following := by
    intro state left right takenLeft takenRight
    rw [takenLeft, Outcome.next.injEq] at takenRight
    exact takenRight
  rcases Relation.ReflTransGen.total_of_right_unique unique reaches reachesFinal with
    later | earlier
  · exact later
  · cases Relation.ReflTransGen.cases_head earlier with
    | inl equal => rw [equal]; exact Reaches.refl state
    | inr leaves =>
        rcases leaves with ⟨following, taken, _⟩
        rw [stops] at taken
        cases taken

/-! ## Loops with a decreasing measure -/

section Measure

variable {measure : State → Nat}
  (decreases : ∀ state following, step state = .next following →
    measure following < measure state)

include decreases

theorem run_fuel {fuel other : Nat} {state : State}
    (enough : measure state < fuel) (enoughOther : measure state < other) :
    run step fuel state = run step other state := by
  induction fuel generalizing other state with
  | zero => omega
  | succ fuel induction =>
      cases other with
      | zero => omega
      | succ other =>
          unfold run
          cases taken : step state with
          | next following =>
              have smaller := decreases state following taken
              exact induction (by omega) (by omega)
          | stop => rfl
          | fault => rfl

theorem run_eq_of_reaches {fuel other : Nat} {initial final : State}
    (reaches : Reaches step initial final)
    (enough : measure initial < fuel) (enoughOther : measure final < other) :
    run step fuel initial = run step other final := by
  induction reaches using Relation.ReflTransGen.head_induction_on generalizing fuel with
  | refl => exact run_fuel decreases enough enoughOther
  | head taken _ induction =>
      cases fuel with
      | zero => omega
      | succ fuel =>
          have smaller := decreases _ _ taken
          rw [run, taken]
          exact induction (by omega)

/-- With enough fuel a loop ends at a head it reaches and where it stops,
unless it faults on the way. -/
theorem run_eq_some_iff {fuel : Nat} {initial final : State}
    (enough : measure initial < fuel) :
    run step fuel initial = some final ↔
      Reaches step initial final ∧ step final = .stop := by
  constructor
  · intro returns
    induction fuel generalizing initial with
    | zero => omega
    | succ fuel induction =>
        rw [run] at returns
        cases taken : step initial with
        | next following =>
            rw [taken] at returns
            have smaller := decreases _ _ taken
            have rest := induction (by omega) returns
            exact ⟨(Reaches.single taken).trans rest.1, rest.2⟩
        | stop =>
            rw [taken] at returns
            cases returns
            exact ⟨Reaches.refl _, taken⟩
        | fault =>
            rw [taken] at returns
            cases returns
  · intro ended
    rcases ended with ⟨reaches, stops⟩
    rw [run_eq_of_reaches decreases reaches enough (Nat.lt_succ_self _), run, stops]

theorem exists_stop (safe : ∀ state, step state ≠ .fault) (initial : State) :
    ∃ final, Reaches step initial final ∧ step final = .stop := by
  induction size : measure initial using Nat.strongRecOn generalizing initial with
  | _ size induction =>
      cases taken : step initial with
      | next following =>
          have smaller := decreases _ _ taken
          rcases induction _ (size ▸ smaller) following rfl with ⟨final, reaches, stops⟩
          exact ⟨final, (Reaches.single taken).trans reaches, stops⟩
      | stop => exact ⟨initial, Reaches.refl _, taken⟩
      | fault => exact absurd taken (safe initial)

end Measure

/-! ## Bounded scans

`scan test fuel start` is the first position from `start` on that fails `test`:
the loop `for (i = start; test(i); i++)`. -/

def scan (test : Nat → Bool) : (fuel start : Nat) → Nat
  | 0, start => start
  | fuel + 1, start => if test start then scan test fuel (start + 1) else start

theorem le_scan (test : Nat → Bool) : ∀ fuel start : Nat, start ≤ scan test fuel start
  | 0, _ => Nat.le_refl _
  | fuel + 1, start => by
      have later := le_scan test fuel (start + 1)
      rw [scan]
      split <;> omega

theorem scan_holds {test : Nat → Bool} : ∀ {fuel start index : Nat},
    start ≤ index → index < scan test fuel start → test index = true
  | 0, start, index, after, before => by
      simp only [scan] at before
      omega
  | fuel + 1, start, index, after, before => by
      rw [scan] at before
      by_cases first : test start = true
      · rw [if_pos first] at before
        by_cases equal : index = start
        · rwa [equal]
        · exact scan_holds (by omega) before
      · rw [if_neg first] at before
        omega

theorem le_scan_of_holds {test : Nat → Bool} : ∀ {fuel start count : Nat}, count ≤ fuel →
    (∀ index, start ≤ index → index < start + count → test index = true) →
    start + count ≤ scan test fuel start
  | fuel, start, 0, _, _ => le_scan test fuel start
  | fuel + 1, start, count + 1, enough, holds => by
      rw [scan, if_pos (holds start (Nat.le_refl _) (by omega))]
      have later : start + 1 + count ≤ scan test fuel (start + 1) :=
        le_scan_of_holds (Nat.le_of_succ_le_succ enough) fun index after before =>
          holds index (by omega) (by omega)
      omega

theorem scan_le {test : Nat → Bool} {bound : Nat}
    (bounded : ∀ index, bound ≤ index → test index = false) {fuel start : Nat}
    (startLe : start ≤ bound) : scan test fuel start ≤ bound := by
  apply Nat.le_of_not_lt
  intro beyond
  have holds := scan_holds startLe beyond
  rw [bounded bound (Nat.le_refl bound)] at holds
  cases holds

end Loop

end EspSqlite
