import Witos.Library.Bytes
import Witos.Shell.Command

/-!
# The arguments of a command line

A line is split as documented by the relations `Splits` and `Rejects`: they
describe the lines, and not how they are scanned.  `command_translate` returns
`-EINVAL` for the lines that are rejected, and leaves the arguments of all
others in its buffer, each with a zero behind it.
-/

namespace Witos.Shell

open Library

/-- A run of characters other than blanks and quotes. -/
structure IsBare (word : List UInt8) : Prop where
  nonempty : word ≠ []
  noBlank : blank ∉ word
  noQuote : quote ∉ word

/-- The arguments of a line. -/
inductive Splits : List UInt8 → List (List UInt8) → Prop where
  | nil : Splits [] []
  | blank {rest : List UInt8} {args : List (List UInt8)} :
      Splits rest args → Splits (blank :: rest) args
  | last {word : List UInt8} : IsBare word → Splits word [word]
  | bare {word rest : List UInt8} {args : List (List UInt8)} :
      IsBare word → Splits rest args →
      Splits (word ++ Shell.blank :: rest) (word :: args)
  | quoted {text rest : List UInt8} {args : List (List UInt8)} :
      quote ∉ text → Splits rest args →
      Splits (quote :: (text ++ quote :: rest)) (text :: args)

/-- A bare word with a quote directly behind it, or a quoted argument that is
not closed. -/
inductive Rejects : List UInt8 → Prop where
  | blank {rest : List UInt8} : Rejects rest → Rejects (blank :: rest)
  | bare {word rest : List UInt8} :
      IsBare word → Rejects rest → Rejects (word ++ Shell.blank :: rest)
  | quoted {text rest : List UInt8} :
      quote ∉ text → Rejects rest →
      Rejects (quote :: (text ++ quote :: rest))
  | quoteBehind {word rest : List UInt8} :
      IsBare word → Rejects (word ++ quote :: rest)
  | unclosed {text : List UInt8} : quote ∉ text → Rejects (quote :: text)

/-- A string lies in memory with its terminator. -/
def IsString (memory : Nat → UInt8) (offset : Nat) (text : List UInt8) :
    Prop :=
  0 ∉ text ∧ Lies memory offset (text ++ [0])

theorem Splits.mem {line : List UInt8} {args : List (List UInt8)}
    (splits : Splits line args) {arg : List UInt8} {char : UInt8}
    (isArg : arg ∈ args) (member : char ∈ arg) : char ∈ line := by
  induction splits with
  | nil => cases isArg
  | blank _ induction => exact List.mem_cons_of_mem _ (induction isArg)
  | last bare =>
      obtain rfl := List.mem_singleton.mp isArg
      exact member
  | bare bare _ induction =>
      apply List.mem_append.mpr
      rcases List.mem_cons.mp isArg with rfl | later
      · exact Or.inl member
      · exact Or.inr (List.mem_cons_of_mem _ (induction later))
  | quoted noQuote _ induction =>
      apply List.mem_cons_of_mem
      apply List.mem_append.mpr
      rcases List.mem_cons.mp isArg with rfl | later
      · exact Or.inl member
      · exact Or.inr (List.mem_cons_of_mem _ (induction later))

theorem splitBare_append {word : List UInt8} (noBlank : blank ∉ word)
    (noQuote : quote ∉ word) (read rest : List UInt8) :
    splitBare read (word ++ rest) = splitBare (read ++ word) rest := by
  induction word generalizing read with
  | nil => simp
  | cons char word induction =>
      have notBlank := (List.ne_of_not_mem_cons noBlank).symm
      have notQuote := (List.ne_of_not_mem_cons noQuote).symm
      rw [List.cons_append, splitBare_other _ _ notBlank notQuote, induction]
      · simp
      · exact List.not_mem_of_not_mem_cons noBlank
      · exact List.not_mem_of_not_mem_cons noQuote

theorem splitQuoted_append {text : List UInt8} (noQuote : quote ∉ text)
    (read rest : List UInt8) :
    splitQuoted read (text ++ rest) = splitQuoted (read ++ text) rest := by
  induction text generalizing read with
  | nil => simp
  | cons char text induction =>
      have notQuote := (List.ne_of_not_mem_cons noQuote).symm
      rw [List.cons_append, splitQuoted_other _ _ notQuote, induction]
      · simp
      · exact List.not_mem_of_not_mem_cons noQuote

theorem split_bare {word : List UInt8} (bare : IsBare word)
    (rest : List UInt8) : split (word ++ rest) = splitBare word rest := by
  obtain ⟨nonempty, noBlank, noQuote⟩ := bare
  cases word with
  | nil => exact absurd rfl nonempty
  | cons char word =>
      have notBlank := (List.ne_of_not_mem_cons noBlank).symm
      have notQuote := (List.ne_of_not_mem_cons noQuote).symm
      rw [split, List.cons_append, splitBetween_other _ notBlank notQuote,
        splitBare_append]
      · rfl
      · exact List.not_mem_of_not_mem_cons noBlank
      · exact List.not_mem_of_not_mem_cons noQuote

theorem split_quoted {text : List UInt8} (noQuote : quote ∉ text)
    (rest : List UInt8) :
    split (quote :: (text ++ rest)) = splitQuoted text rest := by
  rw [split, splitBetween_quote, splitQuoted_append noQuote, List.nil_append]

theorem Splits.split_eq {line : List UInt8} {args : List (List UInt8)}
    (splits : Splits line args) : split line = ⟨args, false⟩ := by
  induction splits with
  | nil => rfl
  | blank _ induction =>
      rw [split, splitBetween_blank]
      exact induction
  | last bare =>
      have read := split_bare bare []
      rw [List.append_nil] at read
      rw [read]
      rfl
  | bare bare _ induction =>
      rw [split_bare bare, splitBare_blank]
      exact congrArg (Split.cons _) induction
  | quoted noQuote _ induction =>
      rw [split_quoted noQuote, splitQuoted_quote]
      exact congrArg (Split.cons _) induction

theorem Rejects.split_rejected {line : List UInt8} (rejects : Rejects line) :
    (split line).rejected = true := by
  induction rejects with
  | blank _ induction =>
      rw [split, splitBetween_blank]
      exact induction
  | bare bare _ induction =>
      rw [split_bare bare, splitBare_blank]
      exact induction
  | quoted noQuote _ induction =>
      rw [split_quoted noQuote, splitQuoted_quote]
      exact induction
  | quoteBehind bare =>
      rw [split_bare bare, splitBare_quote]
  | unclosed noQuote =>
      have read := split_quoted noQuote []
      rw [List.append_nil] at read
      rw [read]
      rfl

/-- A line that begins with neither a blank nor a quote begins with a bare
word. -/
theorem exists_bare {char : UInt8} (line : List UInt8)
    (notBlank : char ≠ blank) (notQuote : char ≠ quote) :
    ∃ word rest, char :: line = word ++ rest ∧ IsBare word ∧
      (rest = [] ∨ ∃ later, rest = blank :: later ∨ rest = quote :: later) := by
  induction line generalizing char with
  | nil =>
      refine ⟨[char], [], rfl, ⟨by simp, ?_, ?_⟩, Or.inl rfl⟩
      · simpa using notBlank.symm
      · simpa using notQuote.symm
  | cons next line induction =>
      have alone : IsBare [char] := by
        refine ⟨by simp, ?_, ?_⟩
        · simpa using notBlank.symm
        · simpa using notQuote.symm
      by_cases nextBlank : next = blank
      · exact ⟨[char], next :: line, rfl, alone,
          Or.inr ⟨line, Or.inl (by rw [nextBlank])⟩⟩
      · by_cases nextQuote : next = quote
        · exact ⟨[char], next :: line, rfl, alone,
            Or.inr ⟨line, Or.inr (by rw [nextQuote])⟩⟩
        · obtain ⟨word, rest, same, bare, ends⟩ :=
            induction nextBlank nextQuote
          refine ⟨char :: word, rest, by rw [same]; rfl, ⟨by simp, ?_, ?_⟩,
            ends⟩
          · intro member
            rcases List.mem_cons.mp member with first | later
            · exact notBlank first.symm
            · exact bare.noBlank later
          · intro member
            rcases List.mem_cons.mp member with first | later
            · exact notQuote first.symm
            · exact bare.noQuote later

theorem splits_or_rejects (line : List UInt8) :
    (∃ args, Splits line args) ∨ Rejects line := by
  induction length : line.length using Nat.strong_induction_on
    generalizing line with
  | _ count induction =>
      subst length
      cases line with
      | nil => exact Or.inl ⟨[], .nil⟩
      | cons char line =>
          by_cases isBlank : char = blank
          · subst isBlank
            rcases induction line.length (Nat.lt_succ_self _) line rfl with
              ⟨args, splits⟩ | rejects
            · exact Or.inl ⟨args, .blank splits⟩
            · exact Or.inr (.blank rejects)
          · by_cases isQuote : char = quote
            · subst isQuote
              by_cases closed : quote ∈ line
              · obtain ⟨text, rest, rfl, noQuote⟩ :=
                  List.eq_append_cons_of_mem closed
                have shorter : rest.length <
                    (quote :: (text ++ quote :: rest)).length := by
                  simp
                  omega
                rcases induction rest.length shorter rest rfl with
                  ⟨args, splits⟩ | rejects
                · exact Or.inl ⟨_, .quoted noQuote splits⟩
                · exact Or.inr (.quoted noQuote rejects)
              · exact Or.inr (.unclosed closed)
            · obtain ⟨word, rest, same, bare, ends⟩ :=
                exists_bare line isBlank isQuote
              rw [same] at induction ⊢
              rcases ends with rfl | ⟨later, rfl | rfl⟩
              · rw [List.append_nil]
                exact Or.inl ⟨_, .last bare⟩
              · have shorter : later.length <
                    (word ++ blank :: later).length := by
                  simp
                  omega
                rcases induction later.length shorter later rfl with
                  ⟨args, splits⟩ | rejects
                · exact Or.inl ⟨_, .bare bare splits⟩
                · exact Or.inr (.bare bare rejects)
              · exact Or.inr (.quoteBehind bare)

theorem rejects_iff (line : List UInt8) :
    Rejects line ↔ (split line).rejected = true := by
  constructor
  · exact Rejects.split_rejected
  · intro rejected
    rcases splits_or_rejects line with ⟨args, splits⟩ | rejects
    · rw [splits.split_eq] at rejected
      cases rejected
    · exact rejects

namespace Translation

/-- Characters copied to the buffer. -/
def copied (index : Nat) (text : List UInt8) (state : Translation) :
    Translation :=
  { state with cmdLine := overlayAt index text state.cmdLine }

/-- An argument begun at an offset. -/
def opened (offset : Nat) (flag : Place) (state : Translation) :
    Translation :=
  { state.storeArg offset with flag := flag }

/-- A whole argument in the buffer, with its terminator and its pointer. -/
def withArg (offset : Nat) (text : List UInt8) (state : Translation) :
    Translation where
  argc := state.argc + 1
  flag := .between
  cmdLine := overlayAt offset (text ++ [0]) state.cmdLine
  argv := (state.storeArg offset).argv
  inside := (state.storeArg offset).inside

theorem storeLine_eq_copied (index : Nat) (byte : UInt8)
    (state : Translation) :
    state.storeLine index byte = state.copied index [byte] := by
  unfold storeLine copied
  rw [overlayAt_singleton]
  congr 1
  funext place
  exact (Function.update_apply _ _ _ _).symm

theorem copied_copied (index : Nat) (first second : List UInt8)
    (state : Translation) :
    (state.copied index first).copied (index + first.length) second =
      state.copied index (first ++ second) := by
  unfold copied
  exact congrArg (fun line => { state with cmdLine := line })
    (overlayAt_append index first second state.cmdLine)

theorem endArg_opened (offset : Nat) (flag : Place) (text : List UInt8)
    (state : Translation) :
    ((state.opened offset flag).copied offset text).endArg
        (offset + text.length) = state.withArg offset text := by
  rw [endArg, storeLine_eq_copied, copied_copied]
  rfl

/-- Whether a character belongs to the argument that it is read in. -/
def Kept : Place → UInt8 → Prop
  | .between, _ => False
  | .word, char => char ≠ blank ∧ char ≠ quote
  | .quoted, char => char ≠ quote

theorem take_of_kept {state : Translation} {char : UInt8}
    (kept : Kept state.flag char) (index : Nat) :
    state.take index char = some (state.storeLine index char) := by
  unfold Translation.take
  cases flag : state.flag with
  | between =>
      rw [flag] at kept
      exact kept.elim
  | word =>
      rw [flag] at kept
      rw [if_neg kept.1, if_neg kept.2]
  | quoted =>
      rw [flag] at kept
      simp only [if_neg kept]
      split <;> rfl

theorem scan_kept {text : List UInt8} {state : Translation}
    (kept : ∀ char ∈ text, Kept state.flag char) (index : Nat)
    (rest : List UInt8) :
    state.scan index (text ++ rest) =
      scan (index + text.length) rest (state.copied index text) := by
  induction text generalizing index state with
  | nil =>
      rw [copied, overlayAt_nil]
      rfl
  | cons char text induction =>
      have first := take_of_kept (kept char List.mem_cons_self) index
      have later : ∀ other ∈ text,
          Kept (state.copied index [char]).flag other :=
        fun other member => kept other (List.mem_cons_of_mem _ member)
      have whole := copied_copied index [char] text state
      rw [List.length_singleton, List.singleton_append] at whole
      rw [List.cons_append, scan, first]
      dsimp only
      rw [storeLine_eq_copied, induction later, whole, List.length_cons,
        Nat.add_assoc, Nat.add_comm 1]

section Arguments

variable {state : Translation} (between : state.flag = .between) (index : Nat)

include between

theorem scan_bare {word : List UInt8} (bare : IsBare word)
    (rest : List UInt8) :
    state.scan index (word ++ rest) =
      scan (index + word.length) rest
        ((state.opened index .word).copied index word) := by
  obtain ⟨nonempty, noBlank, noQuote⟩ := bare
  cases word with
  | nil => exact absurd rfl nonempty
  | cons char word =>
      have notBlank := (List.ne_of_not_mem_cons noBlank).symm
      have notQuote := (List.ne_of_not_mem_cons noQuote).symm
      have kept : ∀ other ∈ char :: word,
          Kept (state.opened index .word).flag other := by
        intro other member
        refine ⟨?_, ?_⟩
        · rintro rfl
          exact noBlank member
        · rintro rfl
          exact noQuote member
      have again := take_of_kept (kept char List.mem_cons_self) index
      have first : state.take index char =
          some ((state.opened index .word).storeLine index char) := by
        simp only [Translation.take, between, if_neg notBlank,
          if_neg notQuote]
        rfl
      rw [← scan_kept kept, List.cons_append, scan, scan, first, again]

theorem scan_bare_blank {word : List UInt8} (bare : IsBare word)
    (rest : List UInt8) :
    state.scan index (word ++ blank :: rest) =
      scan (index + word.length + 1) rest (state.withArg index word) := by
  rw [scan_bare between index bare, scan, ← endArg_opened index .word]
  rfl

theorem scan_bare_end {word : List UInt8} (bare : IsBare word) :
    state.scan index word =
      (true, { state.withArg index word with flag := .word }) := by
  have read := scan_bare between index bare []
  rw [List.append_nil] at read
  rw [read, ← endArg_opened index .word]
  rfl

theorem scan_quoted {text : List UInt8} (noQuote : quote ∉ text)
    (rest : List UInt8) :
    state.scan index (quote :: (text ++ quote :: rest)) =
      scan (index + 1 + text.length + 1) rest
        (state.withArg (index + 1) text) := by
  have first : state.take index quote =
      some (state.opened (index + 1) .quoted) := by
    simp only [Translation.take, between, if_neg quote_ne_blank]
    rfl
  have kept : ∀ char ∈ text,
      Kept (state.opened (index + 1) .quoted).flag char := by
    rintro char member rfl
    exact noQuote member
  rw [scan, first]
  dsimp only
  rw [scan_kept kept, scan, ← endArg_opened (index + 1) .quoted]
  rfl

end Arguments

/-- What was there before an index is left alone, and so are the arguments that
were complete. -/
structure Keeps (index : Nat) (before after : Translation) : Prop where
  cmdLine : ∀ place < index, after.cmdLine place = before.cmdLine place
  argv : ∀ arg < before.argc, after.argv arg = before.argv arg

/-- The arguments lie in the buffer, from one entry of `argv` on and up to a
place. -/
def Arguments (state : Translation) (first limit : Nat)
    (args : List (List UInt8)) : Prop :=
  ∀ index arg, args[index]? = some arg →
    ∃ offset, state.argv (first + index) = some offset ∧
      offset + arg.length ≤ limit ∧ Lies state.cmdLine offset (arg ++ [0])

theorem Keeps.withArg {index offset : Nat} {text : List UInt8}
    {state : Translation} (behind : index ≤ offset) :
    Keeps index state (state.withArg offset text) := by
  constructor
  · intro place before
    exact overlayAt_of_lt _ _ (Nat.lt_of_lt_of_le before behind)
  · intro arg before
    exact if_neg (Nat.ne_of_lt before)

theorem Keeps.trans {index later : Nat} {first second third : Translation}
    (keeps : Keeps index first second) (after : Keeps later second third)
    (ordered : index ≤ later) (argc : first.argc ≤ second.argc) :
    Keeps index first third := by
  constructor
  · intro place before
    rw [after.cmdLine place (Nat.lt_of_lt_of_le before ordered),
      keeps.cmdLine place before]
  · intro arg before
    rw [after.argv arg (Nat.lt_of_lt_of_le before argc),
      keeps.argv arg before]

theorem Arguments.cons {state : Translation} {first limit offset : Nat}
    {arg : List UInt8} {args : List (List UInt8)}
    (pointer : state.argv first = some offset)
    (short : offset + arg.length ≤ limit)
    (lies : Lies state.cmdLine offset (arg ++ [0]))
    (others : Arguments state (first + 1) limit args) :
    Arguments state first limit (arg :: args) := by
  intro index other found
  cases index with
  | zero =>
      obtain rfl := Option.some.inj found
      exact ⟨offset, pointer, short, lies⟩
  | succ index =>
      have later := others index other found
      rw [Nat.add_assoc, Nat.add_comm 1] at later
      exact later

/-- What a scan leaves behind. -/
structure Leaves (index limit : Nat) (args : List (List UInt8))
    (before after : Translation) : Prop where
  argc : after.argc = before.argc + args.length
  arguments : Arguments after before.argc limit args
  keeps : Keeps index before after

theorem leaves_nil {index limit : Nat} {before after : Translation}
    (argc : after.argc = before.argc) (cmdLine : after.cmdLine = before.cmdLine)
    (argv : after.argv = before.argv) :
    Leaves index limit [] before after := by
  refine ⟨argc, ?_, ?_⟩
  · intro index arg found
    cases found
  · constructor
    · intro place before
      rw [cmdLine]
    · intro arg before
      rw [argv]

theorem Leaves.withArg {index offset limit : Nat} {text : List UInt8}
    {args : List (List UInt8)} {state after : Translation}
    (behind : index ≤ offset) (short : offset + text.length ≤ limit)
    (leaves : Leaves (offset + text.length + 1) limit args
      (state.withArg offset text) after) :
    Leaves index limit (text :: args) state after := by
  have whole : offset + (text ++ [0]).length = offset + text.length + 1 := by
    rw [List.length_append, List.length_singleton, Nat.add_assoc]
  refine ⟨?_, ?_, ?_⟩
  · rw [leaves.argc, List.length_cons]
    exact Nat.add_right_comm _ _ _
  · refine Arguments.cons ?_ short ?_ leaves.arguments
    · rw [leaves.keeps.argv _ (Nat.lt_succ_self _)]
      exact if_pos rfl
    · have stored := slice_overlayAt offset (text ++ [0]) state.cmdLine
      unfold Lies
      rw [← stored]
      rw [length_slice]
      apply slice_congr
      intro place inside
      apply leaves.keeps.cmdLine
      omega
  · apply (Keeps.withArg behind).trans leaves.keeps
    · omega
    · exact Nat.le_succ _

theorem scan_splits {line : List UInt8} {args : List (List UInt8)}
    (splits : Splits line args) {state : Translation}
    (between : state.flag = .between) (index : Nat) :
    ∃ after, state.scan index line = (true, after) ∧
      Leaves index (index + line.length) args state after := by
  induction splits generalizing state index with
  | nil =>
      have same : state.scan index [] = (true, state) := by
        rw [scan, between]
      exact ⟨state, same, leaves_nil rfl rfl rfl⟩
  | @blank rest args splits induction =>
      obtain ⟨after, scanned, leaves⟩ := induction between (index + 1)
      have same : state.scan index (blank :: rest) =
          state.scan (index + 1) rest := by
        rw [scan, Translation.take, between, if_pos rfl]
      refine ⟨after, same.trans scanned, leaves.argc, ?_, ?_⟩
      · rw [List.length_cons, Nat.add_comm rest.length, ← Nat.add_assoc]
        exact leaves.arguments
      · constructor
        · intro place before
          exact leaves.keeps.cmdLine place (Nat.lt_succ_of_lt before)
        · exact leaves.keeps.argv
  | last bare =>
      refine ⟨_, scan_bare_end between index bare, ?_⟩
      apply Leaves.withArg (Nat.le_refl _) (Nat.le_refl _)
      exact leaves_nil rfl rfl rfl
  | @bare word rest args bare splits induction =>
      obtain ⟨after, scanned, leaves⟩ := @induction
        (state.withArg index word) rfl (index + word.length + 1)
      refine ⟨after, (scan_bare_blank between index bare rest).trans scanned,
        ?_⟩
      have limit : index + word.length + 1 + rest.length =
          index + (word ++ blank :: rest).length := by
        rw [List.length_append, List.length_cons]
        omega
      rw [limit] at leaves
      apply leaves.withArg (Nat.le_refl _)
      rw [← limit]
      omega
  | @quoted text rest args noQuote splits induction =>
      obtain ⟨after, scanned, leaves⟩ := @induction
        (state.withArg (index + 1) text) rfl (index + 1 + text.length + 1)
      refine ⟨after, (scan_quoted between index noQuote rest).trans scanned,
        ?_⟩
      have limit : index + 1 + text.length + 1 + rest.length =
          index + (quote :: (text ++ quote :: rest)).length := by
        rw [List.length_cons, List.length_append, List.length_cons]
        omega
      rw [limit] at leaves
      apply leaves.withArg (Nat.le_succ _)
      rw [← limit]
      omega

theorem take_cmdLine {state next : Translation} {index place : Nat}
    {char : UInt8} (taken : state.take index char = some next)
    (other : place ≠ index) : next.cmdLine place = state.cmdLine place := by
  unfold Translation.take at taken
  split at taken
  · split at taken
    · obtain rfl := Option.some.inj taken
      rfl
    · obtain rfl := Option.some.inj taken
      exact if_neg other
    · obtain rfl := Option.some.inj taken
      exact if_neg other
  · split at taken
    · split at taken
      · obtain rfl := Option.some.inj taken
        rfl
      · cases taken
      · obtain rfl := Option.some.inj taken
        exact if_neg other
    · split at taken
      · obtain rfl := Option.some.inj taken
        exact if_neg other
      · obtain rfl := Option.some.inj taken
        exact if_neg other
      · obtain rfl := Option.some.inj taken
        exact if_neg other

theorem scan_cmdLine (line : List UInt8) (state : Translation)
    {index place : Nat} (behind : index + line.length < place) :
    (state.scan index line).2.cmdLine place = state.cmdLine place := by
  induction line generalizing state index with
  | nil =>
      have other : place ≠ index := by
        rw [List.length_nil] at behind
        omega
      unfold scan
      split
      · rfl
      · exact if_neg other
      · rfl
  | cons char line induction =>
      have other : place ≠ index := by omega
      have later : index + 1 + line.length < place := by
        rw [List.length_cons] at behind
        omega
      rw [scan]
      cases taken : state.take index char with
      | none => rfl
      | some next =>
          dsimp only
          rw [induction next later]
          exact take_cmdLine taken other

end Translation

/-- A line is rejected where a quote is directly behind a bare word or a quoted
argument is not closed, and any other line leaves its arguments in the buffer,
each with a zero behind it and the pointer to it in `argv`. -/
theorem commandTranslate_splits (cmdLine : Nat → UInt8) {line : List UInt8}
    (string : 0 ∉ line) (short : line.length ≤ maxArgLen - 1)
    (words : (split line).arguments.length ≤ maxArgc) :
    let result := commandTranslate cmdLine line
    (result.1 = false ↔ Rejects line) ∧
    (¬ Rejects line → ∃ args, Splits line args) ∧
    (∀ args, Splits line args →
      result.1 = true ∧ result.2.argc = args.length ∧
      ∀ index arg, args[index]? = some arg →
        ∃ offset, result.2.argv index = some offset ∧
          offset + arg.length < maxArgLen ∧
          IsString result.2.cmdLine offset arg) ∧
    result.2.inside = true ∧
    ∀ place, maxArgLen ≤ place → result.2.cmdLine place = cmdLine place := by
  intro result
  have ends := commandTranslate_ends cmdLine line
  refine ⟨?_, ?_, ?_, ?_, ?_⟩
  · rw [rejects_iff, ends.answer, Bool.not_eq_false']
  · intro accepted
    exact (splits_or_rejects line).resolve_right accepted
  · intro args splits
    obtain ⟨after, scanned, leaves⟩ := @Translation.scan_splits line args
      splits ⟨0, .between, cmdLine, fun _ => none, true⟩ rfl 0
    have same : result = (true, after) := scanned
    rw [same]
    refine ⟨rfl, leaves.argc.trans (Nat.zero_add _), ?_⟩
    intro index arg found
    obtain ⟨offset, pointer, inLine, lies⟩ := leaves.arguments index arg found
    rw [Nat.zero_add] at pointer inLine
    refine ⟨offset, pointer, ?_, ?_, lies⟩
    · unfold maxArgLen at *
      omega
    · intro zero
      exact string (splits.mem (List.mem_of_getElem? found) zero)
  · rw [ends.inside, Nat.zero_add]
    exact decide_eq_true words
  · intro place beyond
    apply Translation.scan_cmdLine
    unfold maxArgLen at *
    omega

/-- `a "b c"` -/
def twoArguments : List UInt8 :=
  [0x61, blank, quote, 0x62, blank, 0x63, quote]

theorem splits_twoArguments :
    Splits twoArguments [[0x61], [0x62, blank, 0x63]] := by
  have word : IsBare [0x61] := ⟨by decide, by decide, by decide⟩
  have noQuote : quote ∉ [0x62, blank, 0x63] := by decide
  exact .bare word (.quoted noQuote .nil)

theorem commandTranslate_splits_two :
    ∃ offset, (commandTranslate (fun _ => 0) twoArguments).2.argv 1 =
        some offset ∧
      IsString (commandTranslate (fun _ => 0) twoArguments).2.cmdLine offset
        [0x62, blank, 0x63] := by
  have result := commandTranslate_splits (fun _ => 0)
    (show 0 ∉ twoArguments by decide) (by decide)
    (by rw [splits_twoArguments.split_eq]; decide)
  obtain ⟨-, -, arguments⟩ := result.2.2.1 _ splits_twoArguments
  obtain ⟨offset, pointer, -, lies⟩ := arguments 1 _ rfl
  exact ⟨offset, pointer, lies⟩

end Witos.Shell
