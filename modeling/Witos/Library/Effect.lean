import Mathlib.Logic.Basic

/-!
# Computations on a state that may stop for good

An effect reads and changes a state and either returns a value or stops with
a reason after which nothing else runs.  `wp` is its weakest precondition: a
condition on what it returns and a condition on the reason it stops for.  The
lemmas compute `wp` along the structure of a `do` block.
-/

namespace Witos.Library

/-- Computations over states `σ` that stop for reasons `ε`. -/
abbrev Effect (σ ε : Type) := StateT σ (Except ε)

namespace Effect

variable {σ ε α β : Type}

/-- Started in `state`, the computation returns a value and a state that
satisfy `post`, or stops for a reason that satisfies `halt`. -/
def wp (run : Effect σ ε α) (state : σ) (post : α → σ → Prop)
    (halt : ε → Prop) : Prop :=
  match run state with
  | .ok (value, final) => post value final
  | .error reason => halt reason

variable {post : α → σ → Prop} {halt : ε → Prop} {state : σ}

@[simp] theorem wp_pure (value : α) :
    wp (pure value : Effect σ ε α) state post halt ↔ post value state :=
  Iff.rfl

@[simp] theorem wp_bind (run : Effect σ ε β) (next : β → Effect σ ε α) :
    wp (run >>= next) state post halt ↔
      wp run state (fun value final => wp (next value) final post halt)
        halt := by
  simp only [wp, bind, StateT.bind, Except.bind]
  cases run state with
  | ok pair => rfl
  | error reason => rfl

@[simp] theorem wp_get {post : σ → σ → Prop} :
    wp (get : Effect σ ε σ) state post halt ↔ post state state :=
  Iff.rfl

@[simp] theorem wp_set {post : PUnit → σ → Prop} (new : σ) :
    wp (set new : Effect σ ε PUnit) state post halt ↔ post ⟨⟩ new :=
  Iff.rfl

@[simp] theorem wp_modify {post : PUnit → σ → Prop} (change : σ → σ) :
    wp (modify change : Effect σ ε PUnit) state post halt ↔
      post ⟨⟩ (change state) :=
  Iff.rfl

@[simp] theorem wp_throw (reason : ε) :
    wp (throw reason : Effect σ ε α) state post halt ↔ halt reason :=
  Iff.rfl

theorem wp_ite {condition : Prop} [Decidable condition]
    (yes no : Effect σ ε α) :
    wp (if condition then yes else no) state post halt ↔
      (condition → wp yes state post halt) ∧
        (¬condition → wp no state post halt) := by
  by_cases holds : condition
  · simp [holds]
  · simp [holds]

/-- Weakening both conditions. -/
theorem wp.mono {post' : α → σ → Prop} {halt' : ε → Prop}
    {run : Effect σ ε α} (holds : wp run state post halt)
    (weaker : ∀ value final, post value final → post' value final)
    (weakerHalt : ∀ reason, halt reason → halt' reason) :
    wp run state post' halt' := by
  unfold wp at *
  cases result : run state with
  | ok pair =>
      rw [result] at holds
      exact weaker _ _ holds
  | error reason =>
      rw [result] at holds
      exact weakerHalt _ holds

theorem wp.and {post' : α → σ → Prop} {run : Effect σ ε α}
    (first : wp run state post halt) (second : wp run state post' halt) :
    wp run state (fun value final => post value final ∧ post' value final)
      halt := by
  unfold wp at *
  cases result : run state with
  | ok pair =>
      rw [result] at first second
      exact ⟨first, second⟩
  | error reason =>
      rw [result] at first
      exact first

theorem wp_of_forall {run : Effect σ ε α}
    (always : ∀ value final, post value final) :
    wp run state post (fun _ => True) := by
  unfold wp
  split
  · apply always
  · trivial

theorem wp_forall {ι : Sort*} {post : ι → α → σ → Prop} {run : Effect σ ε α}
    (always : ∀ reason, halt reason)
    (each : ∀ index, wp run state (post index) halt) :
    wp run state (fun value final => ∀ index, post index value final)
      halt := by
  unfold wp at *
  cases result : run state with
  | ok pair =>
      intro index
      have holds := each index
      rw [result] at holds
      exact holds
  | error reason => exact always reason

theorem wp_of_ok {run : Effect σ ε α} {value : α} {final : σ}
    (holds : wp run state post halt) (result : run state = .ok (value, final)) :
    post value final := by
  unfold wp at holds
  rw [result] at holds
  exact holds

theorem wp_of_error {run : Effect σ ε α} {reason : ε}
    (holds : wp run state post halt) (result : run state = .error reason) :
    halt reason := by
  unfold wp at holds
  rw [result] at holds
  exact holds

theorem wp_iff_of_ok {run : Effect σ ε α} {value : α} {final : σ}
    (result : run state = .ok (value, final)) :
    wp run state post halt ↔ post value final := by
  unfold wp
  rw [result]

theorem run_get : (get : Effect σ ε σ) state = .ok (state, state) :=
  rfl

theorem run_set (new : σ) :
    (set new : Effect σ ε PUnit) state = .ok (⟨⟩, new) :=
  rfl

theorem run_bind {run : Effect σ ε β} {next : β → Effect σ ε α} {value : β}
    {middle : σ} (first : run state = .ok (value, middle)) :
    (run >>= next) state = next value middle := by
  simp only [bind, StateT.bind, Except.bind, first]

theorem run_bind_error {run : Effect σ ε β} {next : β → Effect σ ε α}
    {reason : ε} (first : run state = .error reason) :
    (run >>= next) state = .error reason := by
  simp only [bind, StateT.bind, Except.bind, first]

theorem run_bind_congr {first second : Effect σ ε β} {state' : σ}
    (same : first state = second state') (next : β → Effect σ ε α) :
    (first >>= next) state = (second >>= next) state' := by
  simp only [bind, StateT.bind, same]

/-- Started in a state that satisfies `inv`, the computation ends in a state
related to it, or stops for a reason that satisfies `halt`. -/
def Keeps (inv : σ → Prop) (related : σ → σ → Prop) (halt : ε → Prop)
    (run : Effect σ ε α) : Prop :=
  ∀ state, inv state →
    wp run state (fun _ final => related state final) halt

/-- Relations that may be chained along a computation, and that keep the
condition under which they were established. -/
structure Chained (inv : σ → Prop) (related : σ → σ → Prop) : Prop where
  refl : ∀ state, related state state
  trans : ∀ {first second third},
    related first second → related second third → related first third
  inv : ∀ {first second}, related first second → inv first → inv second

variable {inv : σ → Prop} {related : σ → σ → Prop}

theorem Keeps.pure (chained : Chained inv related) (value : α) :
    Keeps inv related halt (pure value : Effect σ ε α) :=
  fun state _ => chained.refl state

/-- A computation that keeps the relation, in the middle of a run. -/
theorem Keeps.after (chained : Chained inv related) {run : Effect σ ε α}
    (keeps : Keeps inv related halt run) {start : σ} (holds : inv start)
    (before : related start state) :
    wp run state (fun _ final => related start final) halt :=
  (keeps state (chained.inv before holds)).mono
    (fun _ _ after => chained.trans before after) (fun _ stopped => stopped)

theorem Keeps.bind (chained : Chained inv related) {run : Effect σ ε β}
    {next : β → Effect σ ε α} (first : Keeps inv related halt run)
    (second : ∀ value, Keeps inv related halt (next value)) :
    Keeps inv related halt (run >>= next) := by
  intro state holds
  rw [wp_bind]
  refine (first state holds).mono ?_ (fun _ stopped => stopped)
  intro value middle before
  exact (second value).after chained holds before

theorem Keeps.get_bind {next : σ → Effect σ ε α}
    (second : ∀ state, inv state →
      wp (next state) state (fun _ final => related state final) halt) :
    Keeps inv related halt (get >>= next) := by
  intro state holds
  rw [wp_bind, wp_get]
  exact second state holds

theorem Keeps.ite {condition : Prop} [Decidable condition]
    {yes no : Effect σ ε α} (first : Keeps inv related halt yes)
    (second : Keeps inv related halt no) :
    Keeps inv related halt (if condition then yes else no) := by
  by_cases holds : condition
  · simpa [holds] using first
  · simpa [holds] using second

/-- The first computation does what the second does, or stops for `reason`. -/
def Tracks (reason : ε) (watched plain : Effect σ ε α) : Prop :=
  ∀ state, watched state = .error reason ∨ watched state = plain state

variable {reason : ε}

theorem Tracks.refl (run : Effect σ ε α) : Tracks reason run run :=
  fun _ => .inr rfl

theorem Tracks.bind {watched plain : Effect σ ε β}
    {watchedNext plainNext : β → Effect σ ε α}
    (first : Tracks reason watched plain)
    (second : ∀ value, Tracks reason (watchedNext value) (plainNext value)) :
    Tracks reason (watched >>= watchedNext) (plain >>= plainNext) := by
  intro state
  simp only [Bind.bind, StateT.bind, Except.bind]
  cases first state with
  | inl stopped =>
      left
      rw [stopped]
  | inr same =>
      rw [same]
      cases plain state with
      | error other => exact .inr rfl
      | ok pair => exact second pair.1 pair.2

theorem Tracks.bind_left {run : Effect σ ε β}
    {watchedNext plainNext : β → Effect σ ε α}
    (second : ∀ value, Tracks reason (watchedNext value) (plainNext value)) :
    Tracks reason (run >>= watchedNext) (run >>= plainNext) :=
  Tracks.bind (Tracks.refl run) second

theorem Tracks.bind_right {watched plain : Effect σ ε β}
    (first : Tracks reason watched plain) (next : β → Effect σ ε α) :
    Tracks reason (watched >>= next) (plain >>= next) :=
  Tracks.bind first (fun value => Tracks.refl (next value))

theorem Tracks.ite {condition : Prop} [Decidable condition]
    {watchedYes watchedNo plainYes plainNo : Effect σ ε α}
    (first : Tracks reason watchedYes plainYes)
    (second : Tracks reason watchedNo plainNo) :
    Tracks reason (if condition then watchedYes else watchedNo)
      (if condition then plainYes else plainNo) := by
  by_cases holds : condition
  · simpa [holds] using first
  · simpa [holds] using second

theorem Tracks.guard {watched : σ → Effect σ ε α} {plain : Effect σ ε α}
    {assumed : σ → Prop} [DecidablePred assumed]
    (follows : ∀ state, assumed state → Tracks reason (watched state) plain) :
    Tracks reason (get >>= fun state =>
      if assumed state then watched state else throw reason) plain := by
  intro state
  change (if assumed state then watched state else throw reason) state = _ ∨
    (if assumed state then watched state else throw reason) state = _
  by_cases holds : assumed state
  · rw [if_pos holds]
    exact follows state holds state
  · rw [if_neg holds]
    exact .inl rfl

end Effect

end Witos.Library
