import Mathlib.Data.List.Basic

/-!
# Runs of a machine

A machine takes one input in each step.  An invariant that every step with room
keeps, and a property that no step without room gives, characterise the runs on
which the property holds all the way.
-/

namespace Witos.Library.Trace

variable {σ ι : Type} {step : ι → σ → σ}

/-- The state after the inputs. -/
def run (step : ι → σ → σ) : List ι → σ → σ
  | [], state => state
  | input :: inputs, state => run step inputs (step input state)

theorem run_append (first second : List ι) (state : σ) :
    run step (first ++ second) state =
      run step second (run step first state) := by
  induction first generalizing state with
  | nil => rfl
  | cons input first induction => exact induction (step input state)

/-- The property holds in every state a run goes through. -/
def Throughout (step : ι → σ → σ) (good : σ → Prop) (inputs : List ι)
    (state : σ) : Prop :=
  ∀ front back, inputs = front ++ back → good (run step front state)

/-- Every step of a run is allowed where it is taken. -/
def Allowed (step : ι → σ → σ) (room : ι → σ → Prop) (inputs : List ι)
    (state : σ) : Prop :=
  ∀ front input back, inputs = front ++ input :: back →
    room input (run step front state)

variable {good sound : σ → Prop} {room : ι → σ → Prop} {input : ι}
  {inputs : List ι} {state : σ}

theorem throughout_cons :
    Throughout step good (input :: inputs) state ↔
      good state ∧ Throughout step good inputs (step input state) := by
  constructor
  · intro holds
    refine ⟨holds [] (input :: inputs) rfl, ?_⟩
    rintro front back rfl
    exact holds (input :: front) back rfl
  · rintro ⟨first, later⟩ front back parts
    cases front with
    | nil => exact first
    | cons other front =>
        obtain ⟨rfl, tail⟩ := List.cons.inj parts
        exact later front back tail

theorem allowed_cons :
    Allowed step room (input :: inputs) state ↔
      room input state ∧ Allowed step room inputs (step input state) := by
  constructor
  · intro allowed
    refine ⟨allowed [] input inputs rfl, ?_⟩
    rintro front next back rfl
    exact allowed (input :: front) next back rfl
  · rintro ⟨first, later⟩ front next back parts
    cases front with
    | nil =>
        obtain ⟨rfl, -⟩ := List.cons.inj parts
        exact first
    | cons other front =>
        obtain ⟨rfl, tail⟩ := List.cons.inj parts
        exact later front next back tail

theorem throughout_nil : Throughout step good [] state ↔ good state := by
  constructor
  · intro holds
    exact holds [] [] rfl
  · intro holds front back parts
    obtain ⟨rfl, rfl⟩ := List.nil_eq_append_iff.mp parts
    exact holds

theorem allowed_nil : Allowed step room [] state := by
  intro front input back parts
  simp at parts

/-- An invariant that allowed steps keep holds all the way. -/
theorem Allowed.throughout
    (keeps : ∀ input state, sound state → room input state →
      sound (step input state))
    (start : sound state) (allowed : Allowed step room inputs state) :
    Throughout step sound inputs state := by
  induction inputs generalizing state with
  | nil => exact throughout_nil.mpr start
  | cons input inputs induction =>
      obtain ⟨first, later⟩ := allowed_cons.mp allowed
      exact throughout_cons.mpr
        ⟨start, induction (keeps input state start first) later⟩

theorem Throughout.mono (implies : ∀ state, sound state → good state)
    (holds : Throughout step sound inputs state) :
    Throughout step good inputs state := by
  intro front back parts
  exact implies _ (holds front back parts)

/-- The property holds all the way exactly if every step is allowed. -/
theorem throughout_iff_allowed
    (keeps : ∀ input state, sound state → room input state →
      sound (step input state))
    (gives : ∀ state, sound state → good state)
    (needs : ∀ input state, sound state → good (step input state) →
      room input state)
    (start : sound state) :
    Throughout step good inputs state ↔
      Allowed step room inputs state := by
  constructor
  · intro holds
    induction inputs generalizing state with
    | nil => exact allowed_nil
    | cons input inputs induction =>
        obtain ⟨-, later⟩ := throughout_cons.mp holds
        have first := needs input state start (later [] inputs rfl)
        exact allowed_cons.mpr
          ⟨first, induction (keeps input state start first) later⟩
  · intro allowed
    exact (allowed.throughout keeps start).mono gives

section Answers

variable {τ α : Type}

/-- The answers of a machine that gives one in each step, and its last
state. -/
def answers (step : ι → σ → α × σ) : List ι → σ → List α × σ
  | [], state => ([], state)
  | input :: inputs, state =>
      let (answer, next) := step input state
      let (others, last) := answers step inputs next
      (answer :: others, last)

end Answers

end Witos.Library.Trace
