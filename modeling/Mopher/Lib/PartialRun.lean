import Mathlib

/-!
# Runs of steps that may not be possible

A step takes a state and an event to the next state, or it cannot be made.  A run
makes the steps of a list of events.  `EachStep` says that something holds of every
step that a run comes to, in the state before that step; the rules below take it
apart at the first event and compare two such properties under an invariant.
`answers` are what the steps of a run say.
-/

set_option autoImplicit false

namespace PartialRun

section Runs
variable {S E : Type} (step : S → E → Option S)

def run (s : S) : List E → Option S
  | [] => some s
  | event :: rest => (step s event).bind fun next => run next rest

@[simp] theorem run_nil (s : S) : run step s [] = some s := rfl

theorem run_cons {s next : S} {event : E} (stepped : step s event = some next) (rest : List E) :
    run step s (event :: rest) = run step next rest := by
  rw [run, stepped]
  rfl

theorem run_cons_stuck {s : S} {event : E} (stuck : step s event = none) (rest : List E) :
    run step s (event :: rest) = none := by
  rw [run, stuck]
  rfl

/-- What every step keeps holds after a run. -/
theorem run_invariant {Inv : S → Prop}
    (keep : ∀ s event next, Inv s → step s event = some next → Inv next) (events : List E) :
    ∀ {s final : S}, Inv s → run step s events = some final → Inv final := by
  induction events with
  | nil =>
      intro s final start ran
      cases ran
      exact start
  | cons event rest ih =>
      intro s final start ran
      obtain ⟨next, stepped, ran⟩ := Option.bind_eq_some_iff.mp ran
      exact ih (keep s event next start stepped) ran

/-- `P` holds at every step that the run comes to. -/
def EachStep (P : S → E → Prop) (s : S) (events : List E) : Prop :=
  ∀ front event back before, events = front ++ event :: back →
    run step s front = some before → P before event

theorem eachStep_nil (P : S → E → Prop) (s : S) : EachStep step P s [] := by
  intro front event back before split
  simp at split

theorem eachStep_cons {P : S → E → Prop} {s next : S} {event : E} {rest : List E}
    (stepped : step s event = some next) :
    EachStep step P s (event :: rest) ↔ P s event ∧ EachStep step P next rest := by
  constructor
  · intro each
    constructor
    · exact each [] event rest s rfl rfl
    · intro front later back before split ran
      apply each (event :: front) later back before
      · rw [split]
        rfl
      · rw [run_cons step stepped]
        exact ran
  · rintro ⟨first, each⟩ front later back before split ran
    cases front with
    | nil =>
        cases split
        cases ran
        exact first
    | cons event' front =>
        cases split
        rw [run_cons step stepped] at ran
        exact each front later back before rfl ran

/-- A run does not get past a step that cannot be made. -/
theorem eachStep_cons_stuck {P : S → E → Prop} {s : S} {event : E} {rest : List E}
    (stuck : step s event = none) : EachStep step P s (event :: rest) ↔ P s event := by
  constructor
  · intro each
    exact each [] event rest s rfl rfl
  · intro first front later back before split ran
    cases front with
    | nil =>
        cases split
        cases ran
        exact first
    | cons event' front =>
        cases split
        rw [run_cons_stuck step stuck] at ran
        cases ran

/-- Two properties of steps that are the same under an invariant, which a step
keeps if it has them, are the same for runs. -/
theorem eachStep_congr {P Q : S → E → Prop} (Inv : S → Prop)
    (same : ∀ s event, Inv s → (P s event ↔ Q s event))
    (keep : ∀ s event next, Inv s → step s event = some next → P s event → Inv next)
    (events : List E) : ∀ {s : S}, Inv s → (EachStep step P s events ↔ EachStep step Q s events) := by
  induction events with
  | nil =>
      intro s _
      exact iff_of_true (eachStep_nil step P s) (eachStep_nil step Q s)
  | cons event rest ih =>
      intro s start
      cases stepped : step s event with
      | none =>
          rw [eachStep_cons_stuck step stepped, eachStep_cons_stuck step stepped]
          exact same s event start
      | some next =>
          rw [eachStep_cons step stepped, eachStep_cons step stepped, same s event start]
          apply and_congr_right
          intro holds
          exact ih (keep s event next start stepped ((same s event start).mpr holds))

end Runs

/-! ## Steps with answers -/

section Answers
variable {S T C A : Type}

/-- The answers up to the first step that cannot be made, and the last state if there is none. -/
def answers (step : S → C → Option (A × S)) (s : S) : List C → List A × Option S
  | [] => ([], some s)
  | call :: rest =>
      match step s call with
      | none => ([], none)
      | some (answer, next) => (answer :: (answers step next rest).1, (answers step next rest).2)

variable {step : S → C → Option (A × S)} {s next : S} {call : C} {answer : A}

theorem answers_stuck (stuck : step s call = none) (rest : List C) :
    answers step s (call :: rest) = ([], none) := by
  rw [answers, stuck]

theorem answers_cons (stepped : step s call = some (answer, next)) (rest : List C) :
    answers step s (call :: rest) = (answer :: (answers step next rest).1, (answers step next rest).2) := by
  rw [answers, stepped]

/-- A step of one system is a step of the other, with the same answer. -/
abbrev SameStep {S T A : Type} (R : S → T → Prop) : Option (A × S) → Option (A × T) → Prop :=
  Option.Rel fun x y => x.1 = y.1 ∧ R x.2 y.2

/-- Systems whose steps agree answer alike. -/
theorem answers_eq {step : S → C → Option (A × S)} {step' : T → C → Option (A × T)}
    {R : S → T → Prop} {P : C → Prop}
    (same : ∀ s t call, R s t → P call → SameStep R (step s call) (step' t call)) (calls : List C) :
    ∀ {s : S} {t : T}, R s t → (∀ call ∈ calls, P call) →
      (answers step s calls).1 = (answers step' t calls).1 := by
  induction calls with
  | nil =>
      intro s t _ _
      rfl
  | cons call rest ih =>
      intro s t related all
      have one := same s t call related (all call List.mem_cons_self)
      generalize stepped : step s call = result at one
      generalize stepped' : step' t call = result' at one
      cases one with
      | none => rw [answers_stuck stepped, answers_stuck stepped']
      | @some x y one =>
          obtain ⟨answer, next⟩ := x
          obtain ⟨answer', next'⟩ := y
          obtain ⟨rfl, related'⟩ := one
          rw [answers_cons stepped, answers_cons stepped',
            ih related' fun other inside => all other (List.mem_cons_of_mem _ inside)]

end Answers

end PartialRun
