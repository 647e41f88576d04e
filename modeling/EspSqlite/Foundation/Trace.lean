namespace EspSqlite

/-! # Traces of labelled steps

Runs of a system with the labels of their steps, and their simulation by the runs
of an abstract system. -/

variable {State Abstract Label : Type} {step : State → Label → State → Prop}
  {abstractStep : Abstract → Label → Abstract → Prop}

inductive Trace (step : State → Label → State → Prop) (start : State) :
    List Label → State → Prop
  | nil : Trace step start [] start
  | snoc {labels : List Label} {label : Label} {state state' : State} :
      Trace step start labels state → step state label state' →
        Trace step start (labels ++ [label]) state'

namespace Trace

variable {start state : State} {labels : List Label}

theorem invariant {Invariant : State → Prop} (atStart : Invariant start)
    (keeps : ∀ state label state', Invariant state → step state label state' → Invariant state')
    (trace : Trace step start labels state) : Invariant state := by
  induction trace with
  | nil => exact atStart
  | snoc _ stepped induction => exact keeps _ _ _ induction stepped

/-- Where every step from a state with the invariant is an abstract step, every
trace is an abstract trace. -/
theorem simulates {Invariant : State → Prop} {abstraction : State → Abstract}
    (atStart : Invariant start)
    (keeps : ∀ state label state', Invariant state → step state label state' → Invariant state')
    (simulated : ∀ state label state', Invariant state → step state label state' →
      abstractStep (abstraction state) label (abstraction state'))
    (trace : Trace step start labels state) :
    Trace abstractStep (abstraction start) labels (abstraction state) := by
  induction trace with
  | nil => exact nil
  | snoc earlier stepped induction =>
      exact induction.snoc (simulated _ _ _ (earlier.invariant atStart keeps) stepped)

end Trace

end EspSqlite
