import Witos.Extra.Getopt

/-!
# getopt against a reference scanner

The reference reads the arguments from left to right and keeps options and
operands apart.  `getopt` reads the same options one call at a time.  Between
two calls the arguments it has read are in front, the operands it has passed
behind them, and the operands are the window it moves.
-/

namespace Witos.Extra

open Library.Swap

/-- What the option string says about a letter. -/
inductive Demand
  | nothing | required | optional
deriving DecidableEq

def demandFrom : Arg → Demand
  | first :: second :: _ =>
      if first = colon then
        if second = colon then .optional else .required
      else .nothing
  | [first] => if first = colon then .required else .nothing
  | [] => .nothing

/-- The demand of a declared letter. -/
def declared (optStr : Arg) (letter : UInt8) : Option Demand :=
  if letter = colon then none else (strchr optStr letter).map demandFrom

abbrev Choice := UInt8 × Option Arg

/-- The letters of one word.  The second component is a last letter whose
argument may be the next word. -/
def readCluster (optStr : Arg) :
    Arg → Option (List Choice × Option (UInt8 × Demand))
  | [] => some ([], none)
  | letter :: letters =>
      match declared optStr letter with
      | none => none
      | some .nothing =>
          (readCluster optStr letters).map fun (options, pending) =>
            ((letter, none) :: options, pending)
      | some demand =>
          if letters = [] then some ([], some (letter, demand))
          else some ([(letter, some letters)], none)

/-- The options in order, the words they are made of, and the operands. -/
structure Parsed where
  options : List Choice
  words : List Arg
  operands : List Arg
deriving DecidableEq

def Parsed.empty : Parsed :=
  ⟨[], [], []⟩

def Parsed.addOptions (options : List Choice) (words : List Arg)
    (parsed : Parsed) : Parsed :=
  { parsed with
    options := options ++ parsed.options
    words := words ++ parsed.words }

def Parsed.addOperand (operand : Arg) (parsed : Parsed) : Parsed :=
  { parsed with operands := operand :: parsed.operands }

def isOption (word : Arg) : Prop :=
  charAt word 0 = dash

instance (word : Arg) : Decidable (isOption word) :=
  inferInstanceAs (Decidable (_ = _))

/-- The reference scanner.  It refuses a lone `-`, a letter that is not
declared, and a required argument that is missing or begins with `-`. -/
def scan (optStr : Arg) : List Arg → Option Parsed
  | [] => some .empty
  | word :: rest =>
      if isOption word then
        match readCluster optStr word.tail with
        | none => none
        | some ([], none) => none
        | some (options, none) =>
            (scan optStr rest).map (.addOptions options [word])
        | some (options, some (letter, demand)) =>
            match rest with
            | [] =>
                if demand = .optional then
                  some (.addOptions (options ++ [(letter, none)]) [word]
                    .empty)
                else none
            | value :: others =>
                if ¬isOption value then
                  (scan optStr others).map
                    (.addOptions (options ++ [(letter, some value)])
                      [word, value])
                else if demand = .optional then
                  (scan optStr (value :: others)).map
                    (.addOptions (options ++ [(letter, none)]) [word])
                else none
      else (scan optStr rest).map (.addOperand word)

/-- The ways the reference reads on. -/
inductive Reads (optStr : Arg) : List Arg → Parsed → Prop
  | done : Reads optStr [] .empty
  | operand {word rest parsed}
      (plain : ¬isOption word) (later : Reads optStr rest parsed) :
      Reads optStr (word :: rest) (parsed.addOperand word)
  | cluster {word rest parsed options}
      (option : isOption word)
      (letters : readCluster optStr word.tail = some (options, none))
      (some_ : options ≠ []) (later : Reads optStr rest parsed) :
      Reads optStr (word :: rest) (parsed.addOptions options [word])
  | value {word value rest parsed options letter demand}
      (option : isOption word)
      (letters : readCluster optStr word.tail =
        some (options, some (letter, demand)))
      (plain : ¬isOption value) (later : Reads optStr rest parsed) :
      Reads optStr (word :: value :: rest)
        (parsed.addOptions (options ++ [(letter, some value)])
          [word, value])
  | bare {word rest parsed options letter}
      (option : isOption word)
      (letters : readCluster optStr word.tail =
        some (options, some (letter, .optional)))
      (next : ∀ value ∈ rest.head?, isOption value)
      (later : Reads optStr rest parsed) :
      Reads optStr (word :: rest)
        (parsed.addOptions (options ++ [(letter, none)]) [word])

theorem reads_of_scan {optStr : Arg} {args : List Arg} {parsed : Parsed}
    (accepted : scan optStr args = some parsed) :
    Reads optStr args parsed := by
  fun_induction scan optStr args generalizing parsed with
  | case1 =>
      obtain rfl := Option.some.inj accepted
      exact .done
  | case2 => cases accepted
  | case3 => cases accepted
  | case4 word rest option options some_ letters induction =>
      obtain ⟨later, found, rfl⟩ := Option.map_eq_some_iff.mp accepted
      exact .cluster option letters (by simpa using some_) (induction found)
  | case5 word option options letter letters =>
      obtain rfl := Option.some.inj accepted
      exact .bare option letters (by simp) .done
  | case6 => cases accepted
  | case7 word option options letter demand letters value others plain
      induction =>
      obtain ⟨later, found, rfl⟩ := Option.map_eq_some_iff.mp accepted
      exact .value option letters plain (induction found)
  | case8 word option options letter value others optional letters
      induction =>
      obtain ⟨later, found, rfl⟩ := Option.map_eq_some_iff.mp accepted
      exact .bare option letters (by simpa using optional)
        (induction found)
  | case9 => cases accepted
  | case10 word rest plain induction =>
      obtain ⟨later, found, rfl⟩ := Option.map_eq_some_iff.mp accepted
      exact .operand plain (induction found)

namespace Reads

variable {optStr : Arg} {args : List Arg} {parsed : Parsed}

theorem words_sublist (reads : Reads optStr args parsed) :
    parsed.words.Sublist args := by
  induction reads with
  | done => exact .slnil
  | operand plain later induction => exact .cons _ induction
  | cluster option letters some_ later induction =>
      exact .cons_cons _ induction
  | value option letters plain later induction =>
      exact .cons_cons _ (.cons_cons _ induction)
  | bare option letters next later induction => exact .cons_cons _ induction

theorem operands_sublist (reads : Reads optStr args parsed) :
    parsed.operands.Sublist args := by
  induction reads with
  | done => exact .slnil
  | operand plain later induction => exact .cons_cons _ induction
  | cluster option letters some_ later induction =>
      exact .cons _ induction
  | value option letters plain later induction =>
      exact .cons _ (.cons _ induction)
  | bare option letters next later induction => exact .cons _ induction

theorem perm (reads : Reads optStr args parsed) :
    (parsed.words ++ parsed.operands).Perm args := by
  induction reads with
  | done => exact .refl []
  | operand plain later induction =>
      exact List.perm_middle.trans (induction.cons _)
  | cluster option letters some_ later induction =>
      exact induction.cons _
  | value option letters plain later induction =>
      exact (induction.cons _).cons _
  | bare option letters next later induction => exact induction.cons _

end Reads

/-- The words read so far stand in front, then the operands passed so far, then
the words taken by the present call, then what is left. -/
structure Scanned (state : Getopt) (program : Arg)
    (words operands taken rest : List Arg) : Prop where
  argv : state.argv = program :: (words ++ operands ++ taken ++ rest)
  optind : state.optind =
    1 + words.length + operands.length + taken.length
  start : state.nonArgStart =
    if operands = [] then 0 else 1 + words.length
  stop : operands ≠ [] →
    state.nonArgEnd = words.length + operands.length

namespace Scanned

variable {state : Getopt} {program : Arg}
  {words operands taken rest : List Arg}

theorem argOf_optind {word : Arg}
    (scanned : Scanned state program words operands taken (word :: rest)) :
    argOf state state.optind = word := by
  have place : state.optind =
      (program :: (words ++ operands ++ taken)).length := by
    simp only [scanned.optind, List.length_cons, List.length_append]
    omega
  have shape : state.argv =
      program :: (words ++ operands ++ taken) ++ word :: rest := by
    simp [scanned.argv]
  simp [argOf, shape, place]

theorem length_sub
    (scanned : Scanned state program words operands taken rest) :
    state.argv.length = state.optind + rest.length := by
  simp only [scanned.argv, scanned.optind, List.length_cons,
    List.length_append]
  omega

theorem adjustOne {word : Arg} (window : operands ≠ [])
    (scanned :
      Scanned state program words operands (word :: taken) rest) :
    Scanned (adjustOne state) program (words ++ [word]) operands taken
      rest where
  argv := by
    have moved := sink_append (program :: words) operands (taken ++ rest)
      word
    have first : state.nonArgStart = (program :: words).length := by
      simp only [scanned.start, if_neg window, List.length_cons]
      omega
    have last : state.nonArgEnd + 1 =
        (program :: words).length + operands.length := by
      simp only [scanned.stop window, List.length_cons]
      omega
    have shape : state.argv =
        program :: words ++ operands ++ word :: (taken ++ rest) := by
      simp [scanned.argv]
    simp only [Extra.adjustOne, first, last, shape, moved]
    simp
  optind := by
    simp only [Extra.adjustOne, scanned.optind, List.length_append,
      List.length_cons, List.length_nil]
    omega
  start := by
    simp only [Extra.adjustOne, scanned.start, if_neg window,
      List.length_append, List.length_cons, List.length_nil]
    omega
  stop := by
    intro _
    simp only [Extra.adjustOne, scanned.stop window, List.length_append,
      List.length_cons, List.length_nil]
    omega

theorem adjustRounds (window : operands ≠ [])
    (scanned : Scanned state program words operands taken rest) :
    Scanned (adjustRounds taken.length state) program (words ++ taken)
      operands [] rest := by
  induction taken generalizing state words with
  | nil => simpa [Extra.adjustRounds] using scanned
  | cons word taken induction =>
      have next := induction (scanned.adjustOne window)
      simpa [Extra.adjustRounds] using next

/-- `adjust_argv` brings the words of the call in front of the operands. -/
theorem adjustArgv
    (scanned : Scanned state program words operands taken rest) :
    Scanned (adjustArgv state) program (words ++ taken) operands []
      rest := by
  by_cases window : operands = []
  · have first : state.nonArgStart = 0 := by
      simp [scanned.start, window]
    subst window
    refine ⟨?_, ?_, ?_, ?_⟩
    · simp [Extra.adjustArgv, first, scanned.argv]
    · simp [Extra.adjustArgv, first, scanned.optind]
      omega
    · simp [Extra.adjustArgv, first]
    · intro absurd
      exact (absurd rfl).elim
  · have first : 0 < state.nonArgStart := by
      simp only [scanned.start, if_neg window]
      omega
    have rounds : state.optind - (state.nonArgEnd + 1) = taken.length := by
      simp only [scanned.optind, scanned.stop window]
      omega
    rw [Extra.adjustArgv, if_pos first, rounds]
    exact scanned.adjustRounds window

theorem take {next : Getopt} {read left : List Arg}
    (scanned : Scanned state program words operands [] left)
    (split : left = read ++ rest)
    (argv : next.argv = state.argv)
    (optind : next.optind = state.optind + read.length)
    (start : next.nonArgStart = state.nonArgStart)
    (stop : next.nonArgEnd = state.nonArgEnd) :
    Scanned next program words operands read rest where
  argv := by simp [argv, scanned.argv, split]
  optind := by
    simp only [optind, scanned.optind, List.length_nil]
    omega
  start := start.trans scanned.start
  stop := by
    intro window
    exact stop.trans (scanned.stop window)

theorem passOperand {word : Arg}
    (scanned : Scanned state program words operands [] (word :: rest)) :
    Scanned (passOperand state) program words (operands ++ [word]) []
      rest where
  argv := by simp [Extra.passOperand, scanned.argv]
  optind := by
    simp only [Extra.passOperand, scanned.optind, List.length_append,
      List.length_cons, List.length_nil]
    omega
  start := by
    have filled : operands ++ [word] ≠ [] := by simp
    rw [if_neg filled]
    by_cases window : operands = []
    · simp [Extra.passOperand, scanned.start, scanned.optind, window]
    · simp [Extra.passOperand, scanned.start, window]
  stop := by
    intro _
    simp only [Extra.passOperand, scanned.optind, List.length_append,
      List.length_cons, List.length_nil]
    omega

end Scanned

@[simp] theorem adjustRounds_optPos (rounds : Nat) (state : Getopt) :
    (adjustRounds rounds state).optPos = state.optPos := by
  induction rounds generalizing state with
  | zero => rfl
  | succ rounds induction => exact induction (adjustOne state)

@[simp] theorem adjustRounds_optarg (rounds : Nat) (state : Getopt) :
    (adjustRounds rounds state).optarg = state.optarg := by
  induction rounds generalizing state with
  | zero => rfl
  | succ rounds induction => exact induction (adjustOne state)

@[simp] theorem adjustArgv_optPos (state : Getopt) :
    (adjustArgv state).optPos = state.optPos := by
  unfold adjustArgv
  split
  · exact adjustRounds_optPos _ state
  · rfl

@[simp] theorem adjustArgv_optarg (state : Getopt) :
    (adjustArgv state).optarg = state.optarg := by
  unfold adjustArgv
  split
  · exact adjustRounds_optarg _ state
  · rfl

section Call

variable {optStr program word : Arg} {state : Getopt}
  {words operands rest : List Arg}

theorem getopt_operand
    (scanned : Scanned state program words operands [] (word :: rest))
    (position : state.optPos = 1) (plain : ¬isOption word) :
    getopt optStr state = getopt optStr (passOperand state) := by
  have here := scanned.argOf_optind
  have count := scanned.length_sub
  have later := scanned.passOperand.length_sub
  have rounds : state.argv.length - state.optind = rest.length + 1 := by
    simp only [List.length_cons] at count
    omega
  have left : (passOperand state).argv.length -
      (passOperand state).optind = rest.length := by
    omega
  have positionNext : (passOperand state).optPos = 1 := position
  have pass : passOperands (rest.length + 1) state =
      passOperands rest.length (passOperand state) := by
    rw [passOperands, here]
    exact if_neg plain
  rw [getopt, if_pos position, rounds, pass]
  rw [getopt, if_pos positionNext, left]

theorem getopt_end (optStr : Arg)
    (scanned : Scanned state program words operands [] [])
    (position : state.optPos = 1) :
    ∃ final, getopt optStr state = (-1, final) ∧
      final.argv = program :: (words ++ operands) ∧
      final.optind = 1 + words.length := by
  have count := scanned.length_sub
  have none_left : state.argv.length - state.optind = 0 := by
    simp only [List.length_nil] at count
    omega
  have beyond : state.argv.length ≤ state.optind := by
    simp only [List.length_nil] at count
    omega
  rw [getopt, if_pos position, none_left, passOperands,
    if_pos (.inl beyond)]
  refine ⟨_, rfl, ?_, ?_⟩
  · simp [scanned.argv]
  · by_cases window : operands = []
    · simp [scanned.start, scanned.optind, window]
    · simp [scanned.start, window]

theorem getopt_option {letter : UInt8} {before letters : Arg}
    (scanned : Scanned state program words operands [] (word :: rest))
    (shape : word = dash :: before ++ letter :: letters)
    (position : state.optPos = before.length + 1) (visible : letter ≠ 0) :
    getopt optStr state = takeOption optStr state := by
  by_cases first : state.optPos = 1
  · have here := scanned.argOf_optind
    have count := scanned.length_sub
    have rounds : state.argv.length - state.optind = rest.length + 1 := by
      simp only [List.length_cons] at count
      omega
    have stays : passOperands (rest.length + 1) state = state := by
      rw [passOperands, here, if_pos]
      simp [shape, charAt]
    have inside : ¬(state.argv.length ≤ state.optind ∨
        charAt (argOf state state.optind) state.optPos = 0) := by
      rintro (beyond | ended)
      · omega
      · rw [here, shape, position] at ended
        simp [charAt] at ended
        exact visible ended
    rw [getopt, if_pos first, rounds, stays, if_neg inside]
  · rw [getopt, if_neg first]

end Call

/-- A call stands at a letter of the first word left. -/
structure InWord (state : Getopt) (program : Arg)
    (words operands : List Arg) (word : Arg) (rest : List Arg)
    (letter : UInt8) (letters : Arg) : Prop where
  scanned : Scanned state program words operands [] (word :: rest)
  place : ∃ before, word = dash :: before ++ letter :: letters ∧
    state.optPos = before.length + 1
  string : 0 ∉ word

namespace InWord

variable {optStr program word letters : Arg} {state : Getopt}
  {words operands rest : List Arg} {letter : UInt8}

theorem charAt_here
    (inWord : InWord state program words operands word rest letter
      letters) :
    charAt (argOf state state.optind) state.optPos = letter := by
  obtain ⟨before, shape, position⟩ := inWord.place
  rw [inWord.scanned.argOf_optind, shape, position]
  simp [charAt]

theorem charAt_next
    (inWord : InWord state program words operands word rest letter
      letters) :
    charAt (argOf state state.optind) (state.optPos + 1) =
      charAt letters 0 := by
  obtain ⟨before, shape, position⟩ := inWord.place
  have beyond : ¬before.length + 1 < before.length := by omega
  rw [inWord.scanned.argOf_optind, shape, position]
  simp [charAt, List.getElem?_append, beyond]

theorem drop_next
    (inWord : InWord state program words operands word rest letter
      letters) :
    (argOf state state.optind).drop (state.optPos + 1) = letters := by
  obtain ⟨before, shape, position⟩ := inWord.place
  rw [inWord.scanned.argOf_optind, shape, position]
  simp [List.drop_append]

theorem letter_ne_zero
    (inWord : InWord state program words operands word rest letter
      letters) :
    letter ≠ 0 := by
  obtain ⟨before, shape, position⟩ := inWord.place
  rintro rfl
  exact inWord.string (by simp [shape])

theorem charAt_letters
    (inWord : InWord state program words operands word rest letter
      letters) :
    charAt letters 0 = 0 ↔ letters = [] := by
  obtain ⟨before, shape, position⟩ := inWord.place
  cases letters with
  | nil => simp [charAt]
  | cons first others =>
      have visible : first ≠ 0 := by
        rintro rfl
        exact inWord.string (by simp [shape])
      simpa [charAt] using visible

theorem getopt_eq
    (inWord : InWord state program words operands word rest letter
      letters) :
    getopt optStr state = takeOption optStr state := by
  obtain ⟨before, shape, position⟩ := inWord.place
  exact getopt_option inWord.scanned shape position inWord.letter_ne_zero

end InWord

/-- What `getopt` finds behind a declared letter. -/
theorem strchr_of_declared {optStr : Arg} {letter : UInt8}
    {demand : Demand} (known : declared optStr letter = some demand) :
    ∃ behind, (if letter = colon then none else strchr optStr letter) =
        some behind ∧
      (charAt behind 0 = colon ↔ demand ≠ .nothing) ∧
      (charAt behind 0 = colon →
        (charAt behind.tail 0 = colon ↔ demand = .optional)) := by
  unfold declared at known
  split at known
  · cases known
  · rename_i other
    obtain ⟨behind, found, rfl⟩ := Option.map_eq_some_iff.mp known
    refine ⟨behind, by rw [if_neg other, found], ?_, ?_⟩
    · fun_cases demandFrom behind <;> simp_all [charAt, colon]
    · fun_cases demandFrom behind <;> simp_all [charAt, colon]

/-- A call returns a letter and leaves `next` behind. -/
structure Returned (optStr : Arg) (state : Getopt) (choice : Choice)
    (next : Getopt) : Prop where
  value : getopt optStr state = ((choice.1.toNat : Int), next)
  optarg : next.optarg = choice.2

namespace InWord

variable {optStr program word letters : Arg} {state : Getopt}
  {words operands rest : List Arg} {letter : UInt8} {demand : Demand}

/-- A letter without an argument inside a cluster. -/
theorem letter_inside {follower : UInt8} {others : Arg}
    (inWord : InWord state program words operands word rest letter
      (follower :: others))
    (known : declared optStr letter = some .nothing) :
    ∃ next, Returned optStr state (letter, none) next ∧
      InWord next program words operands word rest follower others := by
  obtain ⟨behind, found, bare, -⟩ := strchr_of_declared known
  have alone : ¬charAt behind 0 = colon := by simpa using bare
  have inside : ¬charAt (argOf state state.optind) (state.optPos + 1) =
      0 := by
    rw [inWord.charAt_next, inWord.charAt_letters]
    simp
  obtain ⟨before, shape, position⟩ := inWord.place
  have kept : Scanned
      { state with optarg := none, optPos := state.optPos + 1 } program
      words operands [] (word :: rest) :=
    ⟨inWord.scanned.argv, inWord.scanned.optind, inWord.scanned.start,
      inWord.scanned.stop⟩
  have adjusted := kept.adjustArgv
  rw [List.append_nil] at adjusted
  refine ⟨_, ⟨?_, ?_⟩, adjusted, ⟨before ++ [letter], ?_, ?_⟩,
    inWord.string⟩
  · rw [inWord.getopt_eq, takeOption, inWord.charAt_here, found]
    simp only [if_neg alone, takeLetter, if_neg inside]
  · simp
  · simp [shape]
  · simp [position]

/-- A letter without an argument at the end of a cluster. -/
theorem letter_last
    (inWord : InWord state program words operands word rest letter [])
    (known : declared optStr letter = some .nothing) :
    ∃ next, Returned optStr state (letter, none) next ∧
      next.optPos = 1 ∧
      Scanned next program (words ++ [word]) operands [] rest := by
  obtain ⟨behind, found, bare, -⟩ := strchr_of_declared known
  have alone : ¬charAt behind 0 = colon := by simpa using bare
  have ended : charAt (argOf state state.optind) (state.optPos + 1) =
      0 := by
    rw [inWord.charAt_next, inWord.charAt_letters]
  have read : Scanned { state with
      optarg := none, optind := state.optind + 1, optPos := 1 } program
      words operands [word] rest :=
    inWord.scanned.take rfl rfl rfl rfl rfl
  refine ⟨_, ⟨?_, ?_⟩, ?_, read.adjustArgv⟩
  · rw [inWord.getopt_eq, takeOption, inWord.charAt_here, found]
    simp only [if_neg alone, takeLetter, if_pos ended]
  · simp
  · simp

theorem argument_attached
    (inWord : InWord state program words operands word rest letter letters)
    (known : declared optStr letter = some demand)
    (asks : demand ≠ .nothing) (attached : letters ≠ []) :
    ∃ next, Returned optStr state (letter, some letters) next ∧
      next.optPos = 1 ∧
      Scanned next program (words ++ [word]) operands [] rest := by
  obtain ⟨behind, found, bare, -⟩ := strchr_of_declared known
  have inside : charAt (argOf state state.optind) (state.optPos + 1) ≠
      0 := by
    rw [inWord.charAt_next]
    exact inWord.charAt_letters.not.mpr attached
  have read : Scanned { state with
      optarg := some letters, optind := state.optind + 1, optPos := 1 }
      program words operands [word] rest :=
    inWord.scanned.take rfl rfl rfl rfl rfl
  refine ⟨_, ⟨?_, ?_⟩, ?_, read.adjustArgv⟩
  · rw [inWord.getopt_eq, takeOption, inWord.charAt_here, found]
    simp only [if_pos (bare.mpr asks), takeArgument, if_pos inside,
      inWord.drop_next]
  · simp
  · simp

theorem argument_next {value : Arg}
    (inWord : InWord state program words operands word (value :: rest)
      letter [])
    (known : declared optStr letter = some demand)
    (asks : demand ≠ .nothing) (plain : ¬isOption value) :
    ∃ next, Returned optStr state (letter, some value) next ∧
      next.optPos = 1 ∧
      Scanned next program (words ++ [word, value]) operands [] rest := by
  obtain ⟨behind, found, bare, -⟩ := strchr_of_declared known
  have ended : ¬charAt (argOf state state.optind) (state.optPos + 1) ≠
      0 := by
    rw [inWord.charAt_next, not_not, inWord.charAt_letters]
  have behindWord : Scanned { state with optind := state.optind + 1 }
      program words operands [word] (value :: rest) :=
    inWord.scanned.take rfl rfl rfl rfl rfl
  have here := behindWord.argOf_optind
  have count := behindWord.length_sub
  have usable : ¬(state.argv.length ≤ state.optind + 1 ∨
      charAt (argOf { state with optind := state.optind + 1 }
        (state.optind + 1)) 0 = dash) := by
    rintro (beyond | option)
    · simp only [List.length_cons] at count
      omega
    · exact plain (here ▸ option)
  have read : Scanned { state with
      optarg := some value, optind := state.optind + 1 + 1, optPos := 1 }
      program words operands [word, value] rest :=
    inWord.scanned.take rfl rfl rfl rfl rfl
  refine ⟨_, ⟨?_, ?_⟩, ?_, read.adjustArgv⟩
  · rw [inWord.getopt_eq, takeOption, inWord.charAt_here, found]
    simp only [if_pos (bare.mpr asks), takeArgument, if_neg ended,
      if_neg usable]
    rw [here]
  · simp
  · simp

theorem argument_absent
    (inWord : InWord state program words operands word rest letter [])
    (known : declared optStr letter = some .optional)
    (option : ∀ value ∈ rest.head?, isOption value) :
    ∃ next, Returned optStr state (letter, none) next ∧
      next.optPos = 1 ∧
      Scanned next program (words ++ [word]) operands [] rest := by
  obtain ⟨behind, found, bare, second⟩ := strchr_of_declared known
  have asks : charAt behind 0 = colon := bare.mpr (by simp)
  have ended : ¬charAt (argOf state state.optind) (state.optPos + 1) ≠
      0 := by
    rw [inWord.charAt_next, not_not, inWord.charAt_letters]
  have behindWord : Scanned { state with optind := state.optind + 1 }
      program words operands [word] rest :=
    inWord.scanned.take rfl rfl rfl rfl rfl
  have unusable : state.argv.length ≤ state.optind + 1 ∨
      charAt (argOf { state with optind := state.optind + 1 }
        (state.optind + 1)) 0 = dash := by
    cases rest with
    | nil =>
        left
        have count := behindWord.length_sub
        simp only [List.length_nil] at count
        omega
    | cons value others =>
        right
        have here := behindWord.argOf_optind
        rw [here]
        exact option value (by simp)
  have read : Scanned { state with
      optarg := none, optind := state.optind + 1, optPos := 1 }
      program words operands [word] rest :=
    inWord.scanned.take rfl rfl rfl rfl rfl
  refine ⟨_, ⟨?_, ?_⟩, ?_, read.adjustArgv⟩
  · rw [inWord.getopt_eq, takeOption, inWord.charAt_here, found]
    simp only [if_pos asks, takeArgument, if_neg ended, if_pos unusable,
      if_pos ((second asks).mpr rfl)]
  · simp
  · simp

end InWord

/-- An option as a call returns it. -/
def answer (choice : Choice) : Int × Option Arg :=
  (choice.1.toNat, choice.2)

/-- Calls until -1 return the options and end with the words in front. -/
def Settles (optStr program : Arg) (state : Getopt) (options : List Choice)
    (words operands : List Arg) : Prop :=
  ∃ final,
    (∀ calls, options.length < calls →
      getoptLoop optStr calls state =
        some (options.map answer, final)) ∧
    final.argv = program :: (words ++ operands) ∧
    final.optind = 1 + words.length

section Run

variable {optStr program word : Arg} {state next : Getopt}
  {words operands rest front back : List Arg} {options : List Choice}

theorem Settles.of_getopt_eq
    (same : getopt optStr state = getopt optStr next)
    (settles : Settles optStr program next options words operands) :
    Settles optStr program state options words operands := by
  obtain ⟨final, loops, ends⟩ := settles
  refine ⟨final, ?_, ends⟩
  intro calls enough
  obtain ⟨others, rfl⟩ := Nat.exists_eq_succ_of_ne_zero
    (Nat.ne_zero_of_lt enough)
  have loop := loops _ enough
  rw [getoptLoop] at loop ⊢
  rw [same]
  exact loop

theorem Settles.cons {choice : Choice}
    (returned : Returned optStr state choice next)
    (settles : Settles optStr program next options words operands) :
    Settles optStr program state (choice :: options) words operands := by
  obtain ⟨final, loops, ends⟩ := settles
  refine ⟨final, ?_, ends⟩
  intro calls enough
  obtain ⟨others, rfl⟩ := Nat.exists_eq_succ_of_ne_zero
    (Nat.ne_zero_of_lt enough)
  have goesOn : (choice.1.toNat : Int) ≠ -1 := by omega
  have later : options.length < others := by
    simp only [List.length_cons] at enough
    omega
  rw [getoptLoop, returned.value]
  simp only [if_neg goesOn, loops others later, Option.map_some,
    returned.optarg]
  rfl

theorem settles_of_end
    (scanned : Scanned state program words operands [] [])
    (position : state.optPos = 1) :
    Settles optStr program state [] words operands := by
  obtain ⟨final, ends, argv, optind⟩ :=
    getopt_end optStr scanned position
  refine ⟨final, ?_, argv, optind⟩
  intro calls enough
  obtain ⟨others, rfl⟩ := Nat.exists_eq_succ_of_ne_zero
    (Nat.ne_zero_of_lt enough)
  simp [getoptLoop, ends]

/-- The letters of a cluster are returned one by one.  A last letter with an
argument in the next word is left to the call behind them. -/
theorem Settles.cluster {letter : UInt8} {letters : Arg}
    {read : List Choice} {pending : Option (UInt8 × Demand)}
    (inWord : InWord state program words operands word rest letter letters)
    (cluster : readCluster optStr (letter :: letters) =
      some (read, pending))
    (behind : pending = none → ∀ next, next.optPos = 1 →
      Scanned next program (words ++ [word]) operands [] rest →
      Settles optStr program next options front back)
    (last : ∀ letter demand, pending = some (letter, demand) →
      declared optStr letter = some demand → demand ≠ .nothing →
      ∀ next, InWord next program words operands word rest letter [] →
      Settles optStr program next options front back) :
    Settles optStr program state (read ++ options) front back := by
  induction letters generalizing state letter read with
  | nil =>
      cases known : declared optStr letter with
      | none => simp [readCluster, known] at cluster
      | some demand =>
          by_cases asks : demand = .nothing
          · subst asks
            simp only [readCluster, known, Option.map_some,
              Option.some.injEq, Prod.mk.injEq] at cluster
            obtain ⟨rfl, rfl⟩ := cluster
            obtain ⟨next, returned, position, scanned⟩ :=
              inWord.letter_last known
            exact .cons returned (behind rfl next position scanned)
          · have single : read = [] ∧ pending = some (letter, demand) := by
              cases demand <;> simp_all [readCluster]
            obtain ⟨rfl, rfl⟩ := single
            exact last letter demand rfl known asks state inWord
  | cons follower others induction =>
      cases known : declared optStr letter with
      | none => simp [readCluster, known] at cluster
      | some demand =>
          by_cases asks : demand = .nothing
          · subst asks
            rw [readCluster] at cluster
            simp only [known] at cluster
            obtain ⟨⟨later, _⟩, found, same⟩ :=
              Option.map_eq_some_iff.mp cluster
            obtain ⟨rfl, rfl⟩ := Prod.mk.inj same
            obtain ⟨next, returned, inside⟩ := inWord.letter_inside known
            exact .cons returned (induction inside found)
          · have single : read = [(letter, some (follower :: others))] ∧
                pending = none := by
              cases demand <;> simp_all [readCluster]
            obtain ⟨rfl, rfl⟩ := single
            obtain ⟨next, returned, position, scanned⟩ :=
              inWord.argument_attached known asks (by simp)
            exact .cons returned (behind rfl next position scanned)

theorem InWord.of_isOption {read : List Choice}
    {pending : Option (UInt8 × Demand)}
    (scanned : Scanned state program words operands [] (word :: rest))
    (position : state.optPos = 1) (option : isOption word)
    (string : 0 ∉ word)
    (cluster : readCluster optStr word.tail = some (read, pending))
    (some_ : read ≠ [] ∨ pending ≠ none) :
    ∃ letter letters, word.tail = letter :: letters ∧
      InWord state program words operands word rest letter letters := by
  cases word with
  | nil => simp [isOption, charAt, dash] at option
  | cons first others =>
      have front : first = dash := by
        simpa [isOption, charAt] using option
      subst front
      cases others with
      | nil => simp_all [readCluster]
      | cons letter letters =>
          exact ⟨letter, letters, rfl, scanned,
            ⟨[], rfl, by simpa using position⟩, string⟩

/-- A word of options whose last one has its argument in the next word. -/
theorem Settles.pending {read : List Choice} {last : UInt8} {demand : Demand}
    (scanned : Scanned state program words operands [] (word :: rest))
    (position : state.optPos = 1) (option : isOption word)
    (string : 0 ∉ word)
    (letters : readCluster optStr word.tail =
      some (read, some (last, demand)))
    (settles : declared optStr last = some demand → demand ≠ .nothing →
      ∀ next, InWord next program words operands word rest last [] →
      Settles optStr program next options front back) :
    Settles optStr program state (read ++ options) front back := by
  obtain ⟨first, others, tail, inWord⟩ :=
    InWord.of_isOption scanned position option string letters (.inr (by simp))
  rw [tail] at letters
  refine .cluster inWord letters (by simp) ?_
  intro letter asked same known asks next nextInWord
  obtain ⟨rfl, rfl⟩ := Prod.mk.inj (Option.some.inj same)
  exact settles known asks next nextInWord

/-- From a word of options on, the calls return what the reference reads. -/
theorem Reads.settles {args : List Arg} {parsed : Parsed}
    (reads : Reads optStr args parsed) (strings : ∀ arg ∈ args, 0 ∉ arg)
    (scanned : Scanned state program words operands [] args)
    (position : state.optPos = 1) :
    Settles optStr program state parsed.options (words ++ parsed.words)
      (operands ++ parsed.operands) := by
  induction reads generalizing state words operands with
  | done =>
      have ends : Settles optStr program state [] words operands :=
        settles_of_end scanned position
      simpa [Parsed.empty] using ends
  | @operand word rest parsed plain later induction =>
      have next := induction (fun arg member => strings arg (by simp [member]))
        scanned.passOperand position
      refine .of_getopt_eq (getopt_operand scanned position plain) ?_
      simpa [Parsed.addOperand] using next
  | @cluster word rest parsed options option letters some_ later
      induction =>
      obtain ⟨letter, others, tail, inWord⟩ :=
        InWord.of_isOption scanned position option
          (strings word (by simp)) letters (.inl some_)
      rw [tail] at letters
      refine .cluster inWord letters ?_ (by simp)
      intro _ next nextPosition nextScanned
      have settles := induction
        (fun arg member => strings arg (by simp [member])) nextScanned
        nextPosition
      simpa [Parsed.addOptions] using settles
  | @value word value rest parsed options letter demand option letters plain
      later induction =>
      simp only [Parsed.addOptions, List.append_assoc]
      refine .pending scanned position option (strings word (by simp)) letters
        ?_
      intro known asks next nextInWord
      obtain ⟨after, returned, afterPosition, afterScanned⟩ :=
        nextInWord.argument_next known asks plain
      have settles := induction
        (fun arg member => strings arg (by simp [member])) afterScanned
        afterPosition
      exact .cons returned (by simpa using settles)
  | @bare word rest parsed options letter option letters next later
      induction =>
      simp only [Parsed.addOptions, List.append_assoc]
      refine .pending scanned position option (strings word (by simp)) letters
        ?_
      intro known asks state nextInWord
      obtain ⟨after, returned, afterPosition, afterScanned⟩ :=
        nextInWord.argument_absent known next
      have settles := induction
        (fun arg member => strings arg (by simp [member])) afterScanned
        afterPosition
      exact .cons returned (by simpa using settles)

end Run

/-- Calls of `getopt` until -1 return what the reference scanner reads.  The
words of the options are moved in front of the operands, both in their order,
and `optind` is behind the last of them. -/
theorem getopt_agrees_scan (optStr program : Arg) (args : List Arg)
    (parsed : Parsed) (state : Getopt)
    (strings : ∀ arg ∈ args, 0 ∉ arg)
    (argv : state.argv = program :: args)
    (accepted : scan optStr args = some parsed) :
    (∃ final,
      (∀ calls, parsed.options.length < calls →
        getoptLoop optStr calls (getoptInit state) =
          some (parsed.options.map answer, final)) ∧
      final.argv = program :: (parsed.words ++ parsed.operands) ∧
      final.optind = 1 + parsed.words.length) ∧
    (parsed.words ++ parsed.operands).Perm args ∧
    parsed.words.Sublist args ∧ parsed.operands.Sublist args := by
  have reads := reads_of_scan accepted
  have scanned : Scanned (getoptInit state) program [] [] [] args :=
    ⟨by simp [getoptInit, argv], rfl, rfl, fun absurd => (absurd rfl).elim⟩
  have settles := reads.settles strings scanned rfl
  exact ⟨by simpa [Settles] using settles, reads.perm,
    reads.words_sublist, reads.operands_sublist⟩

/-- The state of a program that was called with `x -ab v y -ca`. -/
def calledWithMixed : Getopt :=
  { argv := [[0x70], [0x78], [0x2d, 0x61, 0x62], [0x76], [0x79],
      [0x2d, 0x63, 0x61]]
    optarg := none, optind := 3, optopt := 0, opterr := true, optPos := 2
    nonArgStart := 2, nonArgEnd := 4, console := [] }

/-- With the option string `ab:c::` the calls return `a`, `b` with `v`, and `c`
with `a`, and leave `-ab v -ca x y`. -/
theorem getopt_agrees_scan_mixed :
    scan [0x61, 0x62, 0x3a, 0x63, 0x3a, 0x3a]
        calledWithMixed.argv.tail =
      some ⟨[(0x61, none), (0x62, some [0x76]), (0x63, some [0x61])],
        [[0x2d, 0x61, 0x62], [0x76], [0x2d, 0x63, 0x61]],
        [[0x78], [0x79]]⟩ ∧
    ∃ final,
      (∀ calls, 3 < calls →
        getoptLoop [0x61, 0x62, 0x3a, 0x63, 0x3a, 0x3a] calls
            (getoptInit calledWithMixed) =
          some ([(0x61, none), (0x62, some [0x76]), (0x63, some [0x61])],
            final)) ∧
      final.argv = [[0x70], [0x2d, 0x61, 0x62], [0x76],
        [0x2d, 0x63, 0x61], [0x78], [0x79]] ∧
      final.optind = 4 :=
  ⟨by decide,
    (getopt_agrees_scan [0x61, 0x62, 0x3a, 0x63, 0x3a, 0x3a] [0x70]
      calledWithMixed.argv.tail
      ⟨[(0x61, none), (0x62, some [0x76]), (0x63, some [0x61])],
        [[0x2d, 0x61, 0x62], [0x76], [0x2d, 0x63, 0x61]],
        [[0x78], [0x79]]⟩
      calledWithMixed (by decide) rfl (by decide)).1⟩

end Witos.Extra
