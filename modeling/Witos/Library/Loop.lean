import Mathlib.Logic.Basic

/-!
# Loops over inputs

A loop takes one input in each iteration and either goes on or leaves with a
reason.  The iterations it goes through are listed with the state before them.
At most one of them leaves the loop, and it is the one that decides how the
loop ends.  A loop without inputs goes on as long as a test of the state says
so.
-/

namespace Witos.Library.Loop

variable {σ ι ε : Type} {step : ι → σ → Option ε × σ}

/-- Run until an iteration leaves the loop or the inputs are used up. -/
def run (step : ι → σ → Option ε × σ) : List ι → σ → Option ε × σ
  | [], state => (none, state)
  | input :: inputs, state =>
      match step input state with
      | (none, next) => run step inputs next
      | (some exit, final) => (some exit, final)

/-- The iterations, each as the state before it and its input. -/
def iterations (step : ι → σ → Option ε × σ) : List ι → σ → List (σ × ι)
  | [], _ => []
  | input :: inputs, state =>
      (state, input) ::
        match step input state with
        | (none, next) => iterations step inputs next
        | (some _, _) => []

theorem run_of_again {input : ι} {state next : σ} (inputs : List ι)
    (again : step input state = (none, next)) :
    run step (input :: inputs) state = run step inputs next := by
  rw [run, again]

theorem run_of_exit {input : ι} {state final : σ} {exit : ε}
    (inputs : List ι) (leaves : step input state = (some exit, final)) :
    run step (input :: inputs) state = (some exit, final) := by
  rw [run, leaves]

theorem iterations_of_again {input : ι} {state next : σ} (inputs : List ι)
    (again : step input state = (none, next)) :
    iterations step (input :: inputs) state =
      (state, input) :: iterations step inputs next := by
  rw [iterations, again]

theorem iterations_of_exit {input : ι} {state final : σ} {exit : ε}
    (inputs : List ι) (leaves : step input state = (some exit, final)) :
    iterations step (input :: inputs) state = [(state, input)] := by
  rw [iterations, leaves]

theorem input_mem {inputs : List ι} {state : σ} {iteration : σ × ι}
    (member : iteration ∈ iterations step inputs state) :
    iteration.2 ∈ inputs := by
  induction inputs generalizing state with
  | nil => cases member
  | cons input inputs induction =>
      rcases result : step input state with ⟨reason, next⟩
      cases reason with
      | none =>
          rw [iterations_of_again inputs result] at member
          rcases List.mem_cons.mp member with first | later
          · rw [first]
            exact List.mem_cons_self
          · exact List.mem_cons_of_mem _ (induction later)
      | some reason =>
          rw [iterations_of_exit inputs result] at member
          rw [List.mem_singleton.mp member]
          exact List.mem_cons_self

/-- The iteration that leaves the loop decides how it ends. -/
theorem run_of_mem {inputs : List ι} {state final : σ} {exit : ε}
    {iteration : σ × ι} (member : iteration ∈ iterations step inputs state)
    (leaves : step iteration.2 iteration.1 = (some exit, final)) :
    run step inputs state = (some exit, final) := by
  induction inputs generalizing state with
  | nil => cases member
  | cons input inputs induction =>
      rcases result : step input state with ⟨left, next⟩
      cases left with
      | none =>
          rw [iterations_of_again inputs result] at member
          rw [run_of_again inputs result]
          rcases List.mem_cons.mp member with first | later
          · rw [first, result] at leaves
            cases leaves
          · exact induction later
      | some reason =>
          rw [iterations_of_exit inputs result] at member
          rw [run_of_exit inputs result, ← leaves,
            List.mem_singleton.mp member, result]

/-- A loop that was left was left by one of its iterations. -/
theorem exists_of_run {inputs : List ι} {state final : σ} {exit : ε}
    (left : run step inputs state = (some exit, final)) :
    ∃ iteration ∈ iterations step inputs state,
      step iteration.2 iteration.1 = (some exit, final) := by
  induction inputs generalizing state with
  | nil => cases left
  | cons input inputs induction =>
      rcases result : step input state with ⟨reason, next⟩
      cases reason with
      | none =>
          rw [run_of_again inputs result] at left
          obtain ⟨iteration, member, leaves⟩ := induction left
          rw [iterations_of_again inputs result]
          exact ⟨iteration, List.mem_cons_of_mem _ member, leaves⟩
      | some reason =>
          rw [run_of_exit inputs result, ← result] at left
          rw [iterations_of_exit inputs result]
          exact ⟨(state, input), List.mem_singleton.mpr rfl, left⟩

theorem eq_of_exits {inputs : List ι} {state : σ}
    {first second : σ × ι}
    (firstMember : first ∈ iterations step inputs state)
    (secondMember : second ∈ iterations step inputs state)
    (firstLeaves : (step first.2 first.1).1 ≠ none)
    (secondLeaves : (step second.2 second.1).1 ≠ none) : first = second := by
  induction inputs generalizing state with
  | nil => cases firstMember
  | cons input inputs induction =>
      rcases result : step input state with ⟨reason, next⟩
      cases reason with
      | none =>
          rw [iterations_of_again inputs result] at firstMember secondMember
          rcases List.mem_cons.mp firstMember with here | later
          · rw [here, result] at firstLeaves
            exact absurd rfl firstLeaves
          · rcases List.mem_cons.mp secondMember with here' | later'
            · rw [here', result] at secondLeaves
              exact absurd rfl secondLeaves
            · exact induction later later'
      | some reason =>
          rw [iterations_of_exit inputs result] at firstMember secondMember
          rw [List.mem_singleton.mp firstMember,
            List.mem_singleton.mp secondMember]

/-- `while (test) body`, with a number of rounds after which there is no
result. -/
def runWhile (test : σ → Bool) (body : σ → σ) : Nat → σ → Option σ
  | 0, _ => none
  | rounds + 1, state =>
      if test state then runWhile test body rounds (body state)
      else some state

/-- The state after so many rounds of `while (test) body`, or where the loop
ended before. -/
def rounds (test : σ → Bool) (body : σ → σ) : Nat → σ → σ
  | 0, state => state
  | count + 1, state =>
      if test state then rounds test body count (body state) else state

section While

variable {test : σ → Bool} {body : σ → σ} (invariant : σ → Prop)

theorem runWhile_succ (count : Nat) (state : σ) :
    runWhile test body (count + 1) state =
      if test (rounds test body count state) then none
      else some (rounds test body count state) := by
  induction count generalizing state with
  | zero => rfl
  | succ count induction =>
      rw [runWhile, rounds]
      cases goesOn : test state with
      | true =>
          rw [if_pos rfl, if_pos rfl]
          exact induction (body state)
      | false =>
          rw [if_neg Bool.false_ne_true, if_neg Bool.false_ne_true, goesOn,
            if_neg Bool.false_ne_true]

theorem invariant_of_rounds {state : σ}
    (keeps : ∀ state, invariant state → test state = true →
      invariant (body state))
    (holds : invariant state) (count : Nat) :
    invariant (rounds test body count state) := by
  induction count generalizing state with
  | zero => exact holds
  | succ count induction =>
      rw [rounds]
      cases goesOn : test state with
      | true =>
          rw [if_pos rfl]
          exact induction (keeps state holds goesOn)
      | false =>
          rw [if_neg Bool.false_ne_true]
          exact holds

/-- A loop on a part of the state, when the rest decides nothing. -/
theorem rounds_of_part {τ : Type} (test' : τ → Bool) (body' : τ → τ)
    (part : σ → τ) (tests : ∀ state, test' (part state) = test state)
    (steps : ∀ state, part (body state) = body' (part state))
    (count : Nat) (state : σ) :
    part (rounds test body count state) =
      rounds test' body' count (part state) := by
  induction count generalizing state with
  | zero => rfl
  | succ count induction =>
      rw [rounds, rounds, tests state]
      cases test state with
      | true =>
          rw [if_pos rfl, if_pos rfl, ← steps]
          exact induction (body state)
      | false => rfl

/-- A loop that ends has kept what every round keeps, and its test fails. -/
theorem invariant_of_runWhile {rounds : Nat} {state final : σ}
    (keeps : ∀ state, invariant state → test state = true →
      invariant (body state))
    (ended : runWhile test body rounds state = some final)
    (holds : invariant state) :
    invariant final ∧ test final = false := by
  induction rounds generalizing state with
  | zero => cases ended
  | succ rounds induction =>
      rw [runWhile] at ended
      cases goesOn : test state with
      | true =>
          rw [goesOn, if_pos rfl] at ended
          exact induction ended (keeps state holds goesOn)
      | false =>
          rw [goesOn, if_neg Bool.false_ne_true] at ended
          cases ended
          exact ⟨holds, goesOn⟩

/-- A loop ends when every round takes something away from a potential. -/
theorem exists_runWhile (potential : σ → Nat) {rounds : Nat} {state : σ}
    (keeps : ∀ state, invariant state → test state = true →
      invariant (body state) ∧ potential (body state) < potential state)
    (enough : potential state < rounds) (holds : invariant state) :
    ∃ final, runWhile test body rounds state = some final := by
  induction rounds generalizing state with
  | zero => exact absurd enough (Nat.not_lt_zero _)
  | succ rounds induction =>
      rw [runWhile]
      cases goesOn : test state with
      | true =>
          obtain ⟨kept, less⟩ := keeps state holds goesOn
          rw [if_pos rfl]
          apply induction _ kept
          exact Nat.lt_of_lt_of_le less (Nat.le_of_lt_succ enough)
      | false =>
          rw [if_neg Bool.false_ne_true]
          exact ⟨state, rfl⟩

variable (test body) in
/-- A loop that takes something away from a potential in every round comes to
its end and has kept its invariant. -/
theorem exists_rounds (potential : σ → Nat) {state : σ}
    (keeps : ∀ state, invariant state → test state = true →
      invariant (body state) ∧ potential (body state) < potential state)
    (holds : invariant state) :
    ∃ count, invariant (rounds test body count state) ∧
      test (rounds test body count state) = false := by
  obtain ⟨final, ended⟩ := exists_runWhile invariant potential keeps
    (Nat.lt_succ_self (potential state)) holds
  refine ⟨potential state, ?_, ?_⟩
  · apply invariant_of_rounds invariant _ holds
    intro state holds goesOn
    exact (keeps state holds goesOn).1
  · rw [runWhile_succ] at ended
    split at ended
    · cases ended
    · rename_i stops
      exact Bool.eq_false_iff.mpr stops

/-- With as many rounds as its potential a loop is at its end. -/
theorem ended_of_rounds (potential : σ → Nat) {count : Nat} {state : σ}
    (keeps : ∀ state, invariant state → test state = true →
      invariant (body state) ∧ potential (body state) < potential state)
    (holds : invariant state) (enough : potential state ≤ count) :
    invariant (rounds test body count state) ∧
      test (rounds test body count state) = false := by
  obtain ⟨final, ended⟩ := exists_runWhile invariant potential keeps
    (Nat.lt_succ_of_le enough) holds
  constructor
  · apply invariant_of_rounds invariant _ holds
    intro state holds goesOn
    exact (keeps state holds goesOn).1
  · rw [runWhile_succ] at ended
    split at ended
    · cases ended
    · rename_i stops
      exact Bool.eq_false_iff.mpr stops

end While

/-- `for (index = 0; index < count; index++)`: what a round makes of the part
that is done. -/
theorem invariant_of_foldl {motive : Nat → σ → Prop} {body : σ → Nat → σ}
    {count : Nat} {state : σ}
    (keeps : ∀ index < count, ∀ state, motive index state →
      motive (index + 1) (body state index))
    (holds : motive 0 state) :
    motive count ((List.range count).foldl body state) := by
  induction count with
  | zero => exact holds
  | succ count induction =>
      rw [List.range_succ, List.foldl_append]
      apply keeps count (Nat.lt_succ_self count)
      apply induction
      intro index before
      exact keeps index (Nat.lt_succ_of_lt before)

end Witos.Library.Loop
