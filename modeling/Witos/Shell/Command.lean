import Witos.Shell.EditorZipper

/-!
# From a line to a command

`command_translate` and the loop of `shell`.  The line is split in place: the
pointers of `argv` are offsets into the static buffer `cmd_line`.  The reference
splits the line into bare and quoted arguments.
-/

namespace Witos.Shell

def quote : UInt8 := 0x22

/-- `MAX_ARGC`. -/
def maxArgc : Nat := 64

/-- `flag`: 0, 1 and 2. -/
inductive Place
  | between | word | quoted
deriving DecidableEq

/-- The variables of `command_translate`.  `inside` is whether all stores to
`argv` so far were inside of its entries. -/
structure Translation where
  argc : Nat
  flag : Place
  cmdLine : Nat → UInt8
  argv : Nat → Option Nat
  inside : Bool

namespace Translation

def storeLine (index : Nat) (byte : UInt8) (state : Translation) :
    Translation :=
  { state with
    cmdLine := fun place =>
      if place = index then byte else state.cmdLine place }

/-- `argv[argc] = cmd_line + offset`. -/
def storeArg (offset : Nat) (state : Translation) : Translation :=
  { state with
    argv := fun place =>
      if place = state.argc then some offset else state.argv place
    inside := state.inside && decide (state.argc < maxArgc) }

/-- The end of an argument at `cmd_line[index]`. -/
def endArg (index : Nat) (state : Translation) : Translation :=
  { state.storeLine index 0 with
    argc := state.argc + 1
    flag := .between }

/-- One round of the loop, or none for `-EINVAL`. -/
def take (index : Nat) (char : UInt8) (state : Translation) :
    Option Translation :=
  if char = blank then
    match state.flag with
    | .between => some state
    | .word => some (state.endArg index)
    | .quoted => some (state.storeLine index char)
  else if char = quote then
    match state.flag with
    | .between => some { state.storeArg (index + 1) with flag := .quoted }
    | .word => none
    | .quoted => some (state.endArg index)
  else
    match state.flag with
    | .between =>
        some ({ state.storeArg index with flag := .word }.storeLine index
          char)
    | .word => some (state.storeLine index char)
    | .quoted => some (state.storeLine index char)

/-- The loop with what is behind it.  The answer is false for `-EINVAL`. -/
def scan (index : Nat) : List UInt8 → Translation → Bool × Translation
  | [], state =>
      match state.flag with
      | .between => (true, state)
      | .word => (true, { state.storeLine index 0 with
          argc := state.argc + 1 })
      | .quoted => (false, state)
  | char :: line, state =>
      match state.take index char with
      | none => (false, state)
      | some next => scan (index + 1) line next

end Translation

/-- `command_translate`.  `cmdLine` is what the static buffer holds from an
earlier call. -/
def commandTranslate (cmdLine : Nat → UInt8) (line : List UInt8) :
    Bool × Translation :=
  Translation.scan 0 line ⟨0, .between, cmdLine, fun _ => none, true⟩

/-- What `shell` does with a line. -/
inductive Dispatch
  | invalid
  | exec (argc : Nat) (argv : Nat → Option Nat)

def dispatch (cmdLine : Nat → UInt8) (line : List UInt8) : Dispatch :=
  match commandTranslate cmdLine line with
  | (false, _) => .invalid
  | (true, state) => .exec state.argc state.argv

/-- A line is rejected or handed to `exec` with arguments that were all set,
and nothing is stored beyond `argv`. -/
def WellDispatched (cmdLine : Nat → UInt8) (line : List UInt8) : Prop :=
  (commandTranslate cmdLine line).2.inside = true ∧
    match dispatch cmdLine line with
    | .invalid => True
    | .exec argc argv =>
        1 ≤ argc ∧ argc ≤ maxArgc ∧ ∀ index < argc, argv index ≠ none

/-- The arguments of a line.  In a line that is rejected the last one is the
argument it was rejected in. -/
structure Split where
  arguments : List (List UInt8)
  rejected : Bool
deriving DecidableEq

def Split.cons (argument : List UInt8) (split : Split) : Split :=
  { split with arguments := argument :: split.arguments }

mutual

/-- Between two arguments. -/
def splitBetween : List UInt8 → Split
  | [] => ⟨[], false⟩
  | char :: line =>
      if char = blank then splitBetween line
      else if char = quote then splitQuoted [] line
      else splitBare [char] line

/-- Behind some characters of a bare word. -/
def splitBare (read : List UInt8) : List UInt8 → Split
  | [] => ⟨[read], false⟩
  | char :: line =>
      if char = blank then (splitBetween line).cons read
      else if char = quote then ⟨[read], true⟩
      else splitBare (read ++ [char]) line

/-- Behind some characters of a quoted argument. -/
def splitQuoted (read : List UInt8) : List UInt8 → Split
  | [] => ⟨[read], true⟩
  | char :: line =>
      if char = quote then (splitBetween line).cons read
      else splitQuoted (read ++ [char]) line

end

theorem quote_ne_blank : quote ≠ blank := by decide

section Equations

variable (read line : List UInt8) {char : UInt8}

@[simp] theorem splitBetween_blank :
    splitBetween (blank :: line) = splitBetween line := by
  simp [splitBetween]

@[simp] theorem splitBetween_quote :
    splitBetween (quote :: line) = splitQuoted [] line := by
  simp [splitBetween, quote_ne_blank]

@[simp] theorem splitBare_blank :
    splitBare read (blank :: line) = (splitBetween line).cons read := by
  simp [splitBare]

@[simp] theorem splitBare_quote :
    splitBare read (quote :: line) = ⟨[read], true⟩ := by
  simp [splitBare, quote_ne_blank]

@[simp] theorem splitQuoted_quote :
    splitQuoted read (quote :: line) = (splitBetween line).cons read := by
  simp [splitQuoted]

theorem splitQuoted_other (notQuote : char ≠ quote) :
    splitQuoted read (char :: line) =
      splitQuoted (read ++ [char]) line := by
  simp [splitQuoted, notQuote]

theorem splitBetween_other (notBlank : char ≠ blank)
    (notQuote : char ≠ quote) :
    splitBetween (char :: line) = splitBare [char] line := by
  simp [splitBetween, notBlank, notQuote]

theorem splitBare_other (notBlank : char ≠ blank)
    (notQuote : char ≠ quote) :
    splitBare read (char :: line) = splitBare (read ++ [char]) line := by
  simp [splitBare, notBlank, notQuote]

end Equations

def splitFrom : Place → List UInt8 → List UInt8 → Split
  | .between, _ => splitBetween
  | .word, read => splitBare read
  | .quoted, read => splitQuoted read

/-- The split of a whole line. -/
def split (line : List UInt8) : Split :=
  splitBetween line

namespace Translation

/-- The arguments begun so far. -/
def begun (state : Translation) : Nat :=
  if state.flag = .between then state.argc else state.argc + 1

/-- Every argument begun was stored in `argv`. -/
structure Tracks (state : Translation) : Prop where
  inside : state.inside = decide (state.begun ≤ maxArgc)
  argv : ∀ index < state.begun, state.argv index ≠ none

variable {state next : Translation}

theorem Tracks.storeArg (tracks : Tracks state) (flag : state.flag = .between)
    (offset : Nat) {later : Place} (inArgument : later ≠ .between) :
    Tracks { state.storeArg offset with flag := later } where
  inside := by
    have before := tracks.inside
    simp only [begun, flag, if_true] at before
    simp only [begun, inArgument, if_false, Translation.storeArg, before]
    rw [← Bool.decide_and]
    apply decide_eq_decide.mpr
    omega
  argv := by
    have before := tracks.argv
    simp only [begun, flag, if_true] at before
    intro index bound
    simp only [begun, inArgument, if_false, Translation.storeArg] at bound ⊢
    split
    · simp
    · exact before index (by omega)

theorem Tracks.storeLine (tracks : Tracks state) (index : Nat)
    (byte : UInt8) : Tracks (state.storeLine index byte) :=
  ⟨tracks.inside, tracks.argv⟩

theorem Tracks.endArg (tracks : Tracks state)
    (flag : state.flag ≠ .between) (index : Nat) :
    Tracks (state.endArg index) := by
  have same : (state.endArg index).begun = state.begun := by
    simp [begun, Translation.endArg, flag]
  refine ⟨?_, ?_⟩
  · rw [same]
    exact tracks.inside
  · rw [same]
    exact tracks.argv

theorem Tracks.take {index : Nat} {char : UInt8} (tracks : Tracks state)
    (taken : state.take index char = some next) : Tracks next := by
  unfold Translation.take at taken
  cases flag : state.flag with
  | between =>
      simp only [flag] at taken
      split at taken
      · obtain rfl := Option.some.inj taken
        exact tracks
      · split at taken
        · obtain rfl := Option.some.inj taken
          exact tracks.storeArg flag _ (by decide)
        · obtain rfl := Option.some.inj taken
          exact (tracks.storeArg flag _ (by decide)).storeLine _ _
  | word =>
      have inArgument : state.flag ≠ .between := by simp [flag]
      simp only [flag] at taken
      split at taken
      · obtain rfl := Option.some.inj taken
        exact tracks.endArg inArgument index
      · split at taken
        · cases taken
        · obtain rfl := Option.some.inj taken
          exact tracks.storeLine _ _
  | quoted =>
      have inArgument : state.flag ≠ .between := by simp [flag]
      simp only [flag] at taken
      split at taken
      · obtain rfl := Option.some.inj taken
        exact tracks.storeLine _ _
      · split at taken
        · obtain rfl := Option.some.inj taken
          exact tracks.endArg inArgument index
        · obtain rfl := Option.some.inj taken
          exact tracks.storeLine _ _

/-- What the reference makes of the rest of a line agrees with what it makes of
the line after one more character. -/
def ReadsOn (state next : Translation) (before after : Split) : Prop :=
  before.rejected = after.rejected ∧
    state.argc + before.arguments.length =
      next.argc + after.arguments.length

theorem readsOn_same {before after : Split} (argc : next.argc = state.argc)
    (same : before = after) : ReadsOn state next before after := by
  subst same
  exact ⟨rfl, by rw [argc]⟩

theorem readsOn_cons {after : Split} (read : List UInt8)
    (argc : next.argc = state.argc + 1) :
    ReadsOn state next (after.cons read) after := by
  refine ⟨rfl, ?_⟩
  simp only [Split.cons, List.length_cons, argc]
  omega

theorem splitFrom_of_take {index : Nat} {char : UInt8}
    (taken : state.take index char = some next) (read line : List UInt8) :
    ∃ later, ReadsOn state next (splitFrom state.flag read (char :: line))
      (splitFrom next.flag later line) := by
  unfold Translation.take at taken
  cases flag : state.flag with
  | between =>
      simp only [flag] at taken
      split at taken
      · rename_i isBlank
        subst isBlank
        obtain rfl := Option.some.inj taken
        exact ⟨read, readsOn_same rfl (by simp [splitFrom, flag])⟩
      · rename_i notBlank
        split at taken
        · rename_i isQuote
          subst isQuote
          obtain rfl := Option.some.inj taken
          exact ⟨[], readsOn_same rfl (by simp [splitFrom])⟩
        · rename_i notQuote
          obtain rfl := Option.some.inj taken
          exact ⟨[char], readsOn_same rfl
            (splitBetween_other line notBlank notQuote)⟩
  | word =>
      simp only [flag] at taken
      split at taken
      · rename_i isBlank
        subst isBlank
        obtain rfl := Option.some.inj taken
        refine ⟨read, ?_⟩
        simp only [splitFrom, splitBare_blank]
        exact readsOn_cons read rfl
      · rename_i notBlank
        split at taken
        · cases taken
        · rename_i notQuote
          obtain rfl := Option.some.inj taken
          refine ⟨read ++ [char], readsOn_same rfl ?_⟩
          simp only [Translation.storeLine, flag]
          exact splitBare_other read line notBlank notQuote
  | quoted =>
      simp only [flag] at taken
      split at taken
      · rename_i isBlank
        subst isBlank
        obtain rfl := Option.some.inj taken
        refine ⟨read ++ [blank], readsOn_same rfl ?_⟩
        simp only [Translation.storeLine, flag]
        exact splitQuoted_other read line quote_ne_blank.symm
      · split at taken
        · rename_i isQuote
          subst isQuote
          obtain rfl := Option.some.inj taken
          refine ⟨read, ?_⟩
          simp only [splitFrom, splitQuoted_quote]
          exact readsOn_cons read rfl
        · rename_i notQuote
          obtain rfl := Option.some.inj taken
          refine ⟨read ++ [char], readsOn_same rfl ?_⟩
          simp only [Translation.storeLine, flag]
          exact splitQuoted_other read line notQuote

theorem splitFrom_of_take_none {index : Nat} {char : UInt8}
    (failed : state.take index char = none) (read line : List UInt8) :
    state.flag = .word ∧
      splitFrom state.flag read (char :: line) = ⟨[read], true⟩ := by
  unfold Translation.take at failed
  cases flag : state.flag with
  | between =>
      simp only [flag] at failed
      split at failed
      · cases failed
      · split at failed <;> cases failed
  | word =>
      simp only [flag] at failed
      split at failed
      · cases failed
      · split at failed
        · rename_i isQuote
          subst isQuote
          exact ⟨rfl, splitBare_quote read line⟩
        · cases failed
  | quoted =>
      simp only [flag] at failed
      split at failed
      · cases failed
      · split at failed <;> cases failed

/-- What the loop leaves behind. -/
structure Ends (result : Bool × Translation) (first : Nat) (split : Split) :
    Prop where
  answer : result.1 = !split.rejected
  argc : split.rejected = false →
    result.2.argc = first + split.arguments.length
  inside : result.2.inside =
    decide (first + split.arguments.length ≤ maxArgc)
  argv : ∀ index < first + split.arguments.length,
    result.2.argv index ≠ none

theorem Tracks.scan (tracks : Tracks state) (index : Nat)
    (read line : List UInt8) :
    Ends (state.scan index line) state.argc
      (splitFrom state.flag read line) := by
  induction line generalizing state index read with
  | nil =>
      have inside := tracks.inside
      have argv := tracks.argv
      cases flag : state.flag with
      | between =>
          simp only [begun, flag, if_true] at inside argv
          simp only [Translation.scan, flag]
          exact ⟨rfl, fun _ => rfl, inside, argv⟩
      | word =>
          simp only [begun, flag, reduceCtorEq, if_false] at inside argv
          simp only [Translation.scan, flag]
          exact ⟨rfl, fun _ => rfl, inside, argv⟩
      | quoted =>
          simp only [begun, flag, reduceCtorEq, if_false] at inside argv
          simp only [Translation.scan, flag]
          exact ⟨rfl, fun accepted => Bool.noConfusion accepted, inside,
            argv⟩
  | cons char line induction =>
      rw [Translation.scan]
      cases taken : state.take index char with
      | none =>
          obtain ⟨flag, rejected⟩ :=
            splitFrom_of_take_none taken read line
          have inside := tracks.inside
          have argv := tracks.argv
          simp only [begun, flag, reduceCtorEq, if_false] at inside argv
          rw [rejected]
          exact ⟨rfl, fun accepted => Bool.noConfusion accepted, inside,
            argv⟩
      | some next =>
          obtain ⟨later, rejected, length⟩ :=
            splitFrom_of_take taken read line
          have ends := induction (tracks.take taken) (index + 1) later
          refine ⟨?_, ?_, ?_, ?_⟩
          · rw [rejected]
            exact ends.answer
          · rw [rejected, length]
            exact ends.argc
          · rw [length]
            exact ends.inside
          · rw [length]
            exact ends.argv

end Translation

/-- What `command_translate` makes of a line. -/
theorem commandTranslate_ends (cmdLine : Nat → UInt8)
    (line : List UInt8) :
    Translation.Ends (commandTranslate cmdLine line) 0 (split line) := by
  have tracks : Translation.Tracks
      ⟨0, .between, cmdLine, fun _ => none, true⟩ :=
    ⟨rfl, fun index bound => (Nat.not_lt_zero index bound).elim⟩
  exact tracks.scan 0 [] line

/-- A line is dispatched as it should be if and only if at most `MAX_ARGC`
arguments begin in it and it is rejected or has an argument. -/
theorem dispatch_wellFormed_iff (cmdLine : Nat → UInt8) (line : List UInt8) :
    WellDispatched cmdLine line ↔
      (split line).arguments.length ≤ maxArgc ∧
        ((split line).rejected = true ∨ (split line).arguments ≠ []) := by
  obtain ⟨answer, argc, inside, argv⟩ := commandTranslate_ends cmdLine line
  unfold WellDispatched dispatch
  rw [inside, decide_eq_true_iff]
  cases result : commandTranslate cmdLine line with
  | mk accepted state =>
      rw [result] at answer argc argv
      simp only at answer argc argv
      simp only [Nat.zero_add] at argc argv ⊢
      cases rejected : (split line).rejected with
      | true =>
          rw [rejected] at answer
          simp only [answer, Bool.not_true, and_true, true_or]
      | false =>
          rw [rejected] at answer
          simp only [answer, Bool.not_false, argc rejected,
            Bool.false_eq_true, false_or]
          constructor
          · rintro ⟨short, some_, -⟩
            exact ⟨short, List.length_pos_iff.mp some_⟩
          · rintro ⟨short, some_⟩
            exact ⟨short, List.length_pos_iff.mpr some_, short, argv⟩

/-- A blank and Enter return a line without an argument, and `exec` is called
with `argc` 0 and `argv[0]` not set. -/
theorem dispatch_not_wellFormed_blank :
    ((Editor.start ⟨fun _ => 0, 0, 0, true⟩ ⟨fun _ => none, 0⟩ []).run []
      [(blank, calm), (newline, calm)]).returned = [[blank]] ∧
    ¬WellDispatched (fun _ => 0) [blank] := by
  refine ⟨by decide, ?_⟩
  rintro ⟨-, some_, -⟩
  exact absurd some_ (by decide)

end Witos.Shell
