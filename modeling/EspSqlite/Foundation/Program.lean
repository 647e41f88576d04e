namespace EspSqlite

/-! # Programs of labelled steps

Programs that look at the state of a machine and take steps in it, what they ensure
where their steps are allowed, and the same program in two machines. -/

/-- A program: what it sees decides its steps, and their answers what comes next. -/
inductive Program (View Label Answer Result : Type)
  | done (result : Result)
  | undefined
  | look (next : View → Program View Label Answer Result)
  | step (label : Label) (next : Answer → Program View Label Answer Result)

structure Machine (State View Label Answer : Type) where
  view : State → View
  step : State → Label → Option (Answer × State)

namespace Program

variable {State Abstract View Label Answer Result Final : Type}

protected def bind :
    Program View Label Answer Result → (Result → Program View Label Answer Final) →
      Program View Label Answer Final
  | done result, rest => rest result
  | undefined, _ => undefined
  | look next, rest => look fun view => (next view).bind rest
  | step label next, rest => step label fun answer => (next answer).bind rest

instance : Monad (Program View Label Answer) where
  pure := done
  bind := Program.bind

def see : Program View Label Answer View := look done

def act (label : Label) : Program View Label Answer Answer := step label done

def run (machine : Machine State View Label Answer) :
    Program View Label Answer Result → State → Option (Result × State)
  | done result, state => some (result, state)
  | undefined, _ => none
  | look next, state => (next (machine.view state)).run machine state
  | step label next, state =>
      (machine.step state label).bind fun taken => (next taken.1).run machine taken.2

def Permitted (machine : Machine State View Label Answer) (allowed : State → Label → Prop) :
    Program View Label Answer Result → State → Prop
  | done _, _ => True
  | undefined, _ => True
  | look next, state => (next (machine.view state)).Permitted machine allowed state
  | step label next, state =>
      allowed state label ∧ ∀ answer state', machine.step state label = some (answer, state') →
        (next answer).Permitted machine allowed state'

/-- As long as its steps are allowed, the program is defined, and its result is one
that is promised. -/
def Ensures (machine : Machine State View Label Answer) (allowed : State → Label → Prop) :
    Program View Label Answer Result → (Result → State → Prop) → State → Prop
  | done result, promise, state => promise result state
  | undefined, _, _ => False
  | look next, promise, state => (next (machine.view state)).Ensures machine allowed promise state
  | step label next, promise, state =>
      allowed state label → ∃ answer state', machine.step state label = some (answer, state') ∧
        (next answer).Ensures machine allowed promise state'

section Rules

variable {machine : Machine State View Label Answer} {allowed : State → Label → Prop}

theorem Ensures.mono {promise promise' : Result → State → Prop}
    (implies : ∀ result state, promise result state → promise' result state)
    {program : Program View Label Answer Result} : ∀ {state : State},
    program.Ensures machine allowed promise state →
      program.Ensures machine allowed promise' state := by
  induction program with
  | done result => exact implies result _
  | undefined => exact False.elim
  | look next induction => exact induction _
  | step label next induction =>
      intro state ensures isAllowed
      rcases ensures isAllowed with ⟨answer, state', stepped, rest⟩
      exact ⟨answer, state', stepped, induction answer rest⟩

/-- What the first program promises is enough for what comes after it. -/
theorem Ensures.bind {promise : Final → State → Prop}
    {rest : Result → Program View Label Answer Final}
    {program : Program View Label Answer Result} : ∀ {state : State},
    program.Ensures machine allowed (fun result => (rest result).Ensures machine allowed promise)
      state → (program >>= rest).Ensures machine allowed promise state := by
  induction program with
  | done result => exact id
  | undefined => exact id
  | look next induction => exact induction _
  | step label next induction =>
      intro state ensures isAllowed
      rcases ensures isAllowed with ⟨answer, state', stepped, later⟩
      exact ⟨answer, state', stepped, induction answer later⟩

theorem Ensures.run {promise : Result → State → Prop}
    {program : Program View Label Answer Result} : ∀ {state : State},
    program.Ensures machine allowed promise state → program.Permitted machine allowed state →
    ∃ result state', program.run machine state = some (result, state') ∧ promise result state' := by
  induction program with
  | done result => exact fun ensures _ => ⟨result, _, rfl, ensures⟩
  | undefined => exact fun ensures _ => ensures.elim
  | look next induction => exact induction _
  | step label next induction =>
      intro state ensures permitted
      rcases ensures permitted.1 with ⟨answer, state', stepped, later⟩
      rcases induction answer later (permitted.2 answer state' stepped) with
        ⟨result, final, ran, promised⟩
      refine ⟨result, final, ?_, promised⟩
      rw [Program.run, stepped]
      exact ran

theorem Permitted.bind {rest : Result → Program View Label Answer Final}
    {program : Program View Label Answer Result} : ∀ {state : State},
    program.Permitted machine allowed state →
    program.Ensures machine allowed (fun result => (rest result).Permitted machine allowed) state →
    (program >>= rest).Permitted machine allowed state := by
  induction program with
  | done result => exact fun _ ensures => ensures
  | undefined => exact fun permitted _ => permitted
  | look next induction => exact induction _
  | step label next induction =>
      intro state permitted ensures
      refine ⟨permitted.1, fun answer state' stepped => ?_⟩
      rcases ensures permitted.1 with ⟨answer', state'', stepped', later⟩
      rw [stepped, Option.some.injEq, Prod.mk.injEq] at stepped'
      rw [← stepped'.1, ← stepped'.2] at later
      exact induction answer (permitted.2 answer state' stepped) later

variable (machine allowed) in
/-- All steps of the program are allowed, and its result is one that is promised. -/
def Meets (program : Program View Label Answer Result) (promise : Result → State → Prop)
    (state : State) : Prop :=
  program.Permitted machine allowed state ∧ program.Ensures machine allowed promise state

theorem Meets.mono {promise promise' : Result → State → Prop}
    (implies : ∀ result state, promise result state → promise' result state)
    {program : Program View Label Answer Result} {state : State}
    (meets : program.Meets machine allowed promise state) :
    program.Meets machine allowed promise' state := ⟨meets.1, meets.2.mono implies⟩

theorem Meets.bind {promise : Final → State → Prop}
    {rest : Result → Program View Label Answer Final}
    {program : Program View Label Answer Result} {state : State}
    (meets : program.Meets machine allowed
      (fun result => (rest result).Meets machine allowed promise) state) :
    (program >>= rest).Meets machine allowed promise state :=
  ⟨meets.1.bind (meets.2.mono fun _ _ => And.left), (meets.2.mono fun _ _ => And.right).bind⟩

theorem Meets.act {promise : Answer → State → Prop} {label : Label} {state state' : State}
    {answer : Answer} (isAllowed : allowed state label)
    (stepped : machine.step state label = some (answer, state'))
    (promised : promise answer state') :
    (Program.act label : Program View Label Answer Answer).Meets machine allowed promise state :=
  ⟨⟨isAllowed, fun _ _ _ => trivial⟩, fun _ => ⟨answer, state', stepped, promised⟩⟩

end Rules

/-- Allowed steps have the same answers in two machines, whose states look alike. -/
structure Simulation (concrete : Machine State View Label Answer)
    (abstract : Machine Abstract View Label Answer) (abstraction : State → Abstract)
    (Invariant : State → Prop) (allowed : Abstract → Label → Prop) : Prop where
  views : ∀ state, Invariant state → concrete.view state = abstract.view (abstraction state)
  steps : ∀ state label, Invariant state → allowed (abstraction state) label →
    ∃ answer state', concrete.step state label = some (answer, state') ∧
      abstract.step (abstraction state) label = some (answer, abstraction state') ∧
      Invariant state'

namespace Simulation

variable {concrete : Machine State View Label Answer}
  {abstract : Machine Abstract View Label Answer}
  {abstraction : State → Abstract} {Invariant : State → Prop}
  {allowed : Abstract → Label → Prop}

theorem permitted_iff (simulation : Simulation concrete abstract abstraction Invariant allowed)
    {program : Program View Label Answer Result} : ∀ {state : State}, Invariant state →
    (program.Permitted concrete (fun state => allowed (abstraction state)) state ↔
      program.Permitted abstract allowed (abstraction state)) := by
  induction program with
  | done result => exact fun _ => Iff.rfl
  | undefined => exact fun _ => Iff.rfl
  | look next induction =>
      intro state invariant
      simp only [Permitted, ← simulation.views state invariant]
      exact induction _ invariant
  | step label next induction =>
      intro state invariant
      apply and_congr_right
      intro isAllowed
      rcases simulation.steps state label invariant isAllowed with
        ⟨answer, state', stepped, same, invariant'⟩
      have later := induction answer invariant'
      constructor
      · intro rest answer' final taken
        rw [same, Option.some.injEq, Prod.mk.injEq] at taken
        rw [← taken.1, ← taken.2]
        exact later.mp (rest answer state' stepped)
      · intro rest answer' final taken
        rw [stepped, Option.some.injEq, Prod.mk.injEq] at taken
        rw [← taken.1, ← taken.2]
        exact later.mpr (rest answer (abstraction state') same)

theorem run_eq (simulation : Simulation concrete abstract abstraction Invariant allowed)
    {program : Program View Label Answer Result} : ∀ {state : State}, Invariant state →
    program.Permitted concrete (fun state => allowed (abstraction state)) state →
    program.run abstract (abstraction state) =
        (program.run concrete state).map (Prod.map id abstraction) ∧
      ∀ result state', program.run concrete state = some (result, state') → Invariant state' := by
  induction program with
  | done result =>
      intro state invariant _
      refine ⟨rfl, fun result' state' ran => ?_⟩
      cases ran
      exact invariant
  | undefined => exact fun _ _ => ⟨rfl, nofun⟩
  | look next induction =>
      intro state invariant permitted
      simp only [run, ← simulation.views state invariant]
      exact induction _ invariant permitted
  | step label next induction =>
      intro state invariant permitted
      rcases simulation.steps state label invariant permitted.1 with
        ⟨answer, state', stepped, same, invariant'⟩
      simp only [run, stepped, same, Option.bind_some]
      exact induction answer invariant' (permitted.2 answer state' stepped)

end Simulation

end Program

end EspSqlite
