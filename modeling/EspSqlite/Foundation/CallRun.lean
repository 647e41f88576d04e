import Mathlib.Data.List.Induction

namespace EspSqlite

/-! # Runs of calls

Calls that change a state one after another, each of which may be undefined. -/

variable {Call State : Type}

def runCalls (step : State → Call → Option State) (calls : List Call) (start : State) :
    Option State :=
  calls.foldlM step start

section Runs

variable {step : State → Call → Option State} {start : State}

theorem runCalls_snoc {calls : List Call} {state : State}
    (ran : runCalls step calls start = some state) (call : Call) :
    runCalls step (calls ++ [call]) start = step state call := by
  rw [runCalls] at ran ⊢
  rw [List.foldlM_append, ran]
  simp

theorem runCalls_stepped {calls : List Call} {start state : State}
    (ran : runCalls step calls start = some state) {call : Call} (member : call ∈ calls) :
    ∃ before after, step before call = some after := by
  induction calls generalizing start with
  | nil => cases member
  | cons first rest induction =>
      simp only [runCalls, List.foldlM_cons, Option.bind_eq_bind, Option.bind_eq_some_iff] at ran
      rcases ran with ⟨middle, stepped, ranRest⟩
      rcases List.mem_cons.mp member with rfl | later
      · exact ⟨start, middle, stepped⟩
      · exact induction ranRest later

theorem runCalls_invariant {Invariant : State → Prop} {Valid : Call → Prop}
    (atStart : Invariant start)
    (keeps : ∀ state call, Invariant state → Valid call →
      ∃ state', step state call = some state' ∧ Invariant state')
    {calls : List Call} (valid : ∀ call ∈ calls, Valid call) :
    ∃ state, runCalls step calls start = some state ∧ Invariant state := by
  induction calls using List.reverseRecOn with
  | nil => exact ⟨start, rfl, atStart⟩
  | append_singleton calls call induction =>
      rcases induction fun other member => valid other (by simp [member]) with
        ⟨state, ran, holds⟩
      rcases keeps state call holds (valid call (by simp)) with ⟨state', stepped, holds'⟩
      exact ⟨state', (runCalls_snoc ran call).trans stepped, holds'⟩

/-- A property of a run holds after each of its calls exactly when each call
keeps it. -/
theorem forall_prefix_iff {calls : List Call} {Holds : List Call → Prop}
    {Good : List Call → Call → Prop} (atStart : Holds [])
    (keeps : ∀ earlier call later, calls = earlier ++ call :: later → Holds earlier →
      (Holds (earlier ++ [call]) ↔ Good earlier call)) :
    (∀ earlier later, calls = earlier ++ later → Holds earlier) ↔
      ∀ earlier call later, calls = earlier ++ call :: later → Good earlier call := by
  constructor
  · intro holds earlier call later split
    apply (keeps earlier call later split (holds earlier (call :: later) split)).mp
    exact holds (earlier ++ [call]) later (by simp [split])
  · intro good earlier
    induction earlier using List.reverseRecOn with
    | nil => exact fun _ _ => atStart
    | append_singleton earlier call induction =>
        intro later split
        rw [List.append_assoc] at split
        exact (keeps earlier call later split (induction _ split)).mpr
          (good earlier call later split)

end Runs

end EspSqlite
