import Witos.Library.Bytes
import Witos.Vfs.Getcwd

/-!
# The buffer of `sys_getcwd`

What `sys_getcwd` of `fs/core/fs.c` stores, byte by byte.  It tests the size
only after a name is stored and has no error to return: the buffer is
respected exactly if the whole path fits.
-/

namespace Witos.Vfs.State

open Library

/-- The second loop of `sys_getcwd` with its stores: `/`, and a name by
`strcpy`. -/
def copyNames (size : Nat) :
    List Dentry → (Nat → UInt8) × Nat → (Nat → UInt8) × Nat
  | [], state => state
  | dentry :: stack, (buff, count) =>
      let buff := Function.update buff count slash
      let buff := overlayAt (count + 1) (dentry.dName ++ [0]) buff
      let count := count + 1 + dentry.dName.length
      if size ≤ count then (buff, count)
      else copyNames size stack (buff, count)

/-- `sys_getcwd`: what is behind `buff` afterwards, and the value returned. -/
def sysGetcwdInto (s : State) (fuel size : Nat) (buff : Nat → UInt8) :
    Option ((Nat → UInt8) × Int) :=
  match s.climb fuel s.pwd [] with
  | none => none
  | some [] => some (overlayAt 0 [slash, 0] buff, 1)
  | some stack =>
      let (buff, count) := copyNames size stack (buff, 0)
      some (buff, count)

/-- The length of the path with these names. -/
def pathLength (names : List Name) : Nat :=
  if names = [] then 1
  else names.length + (names.map List.length).sum

/-- The call returns, stores nothing outside of the buffer, and returns a
length only if the path with these names and its zero fit. -/
def RespectsBuffer (s : State) (names : List Name) (size : Nat) : Prop :=
  ∃ needed, ∀ fuel, needed < fuel → ∀ buff, ∃ final count,
    s.sysGetcwdInto fuel size buff = some (final, count) ∧
    (∀ index, size ≤ index → final index = buff index) ∧
    (0 ≤ count → (textOf names).length + 1 ≤ size)

theorem length_flatMap_slash (names : List Name) :
    (names.flatMap (fun name => slash :: name)).length =
      names.length + (names.map List.length).sum := by
  induction names with
  | nil => rfl
  | cons name names induction =>
      rw [List.flatMap_cons, List.length_append, List.length_cons, induction,
        List.length_cons, List.map_cons, List.sum_cons]
      omega

theorem length_textOf (names : List Name) :
    (textOf names).length = pathLength names := by
  unfold textOf pathLength
  split
  · rfl
  · exact length_flatMap_slash names

theorem length_writeNames_le (size : Nat) (stack : List Dentry)
    (written : List UInt8) :
    (writeNames size stack written).length ≤
      written.length +
        ((stack.map Dentry.dName).flatMap
          (fun name => slash :: name)).length := by
  induction stack generalizing written with
  | nil => exact Nat.le_add_right _ _
  | cons dentry stack induction =>
      rw [List.map_cons, List.flatMap_cons, ← List.length_append,
        ← List.append_assoc, List.length_append, writeNames]
      split
      · exact Nat.le_add_right _ _
      · exact induction _

/-- A `/` and a name with its zero go over the zero that was last. -/
theorem overlayAt_name (written rest : List UInt8) (short : rest.length ≤ 1)
    (name : Name) (buff : Nat → UInt8) :
    overlayAt (written.length + 1) (name ++ [0])
        (Function.update (overlayAt 0 (written ++ rest) buff) written.length
          slash) =
      overlayAt 0 (written ++ slash :: name ++ [0]) buff := by
  have more : rest.length ≤ ([slash] ++ (name ++ [0])).length := by
    rw [List.length_append, List.length_singleton]
    omega
  have first := overlayAt_append written.length [slash] (name ++ [0])
    (overlayAt 0 (written ++ rest) buff)
  rw [List.length_singleton, overlayAt_singleton] at first
  have start := overlayAt_append 0 written rest buff
  have whole := overlayAt_append 0 written ([slash] ++ (name ++ [0])) buff
  rw [Nat.zero_add] at start whole
  rw [first, ← start, overlayAt_overlayAt _ more, whole, List.append_assoc]
  rfl

theorem copyNames_eq (size : Nat) (stack : List Dentry)
    (written rest : List UInt8) (short : rest.length ≤ 1)
    (buff : Nat → UInt8) :
    copyNames size stack
        (overlayAt 0 (written ++ rest) buff, written.length) =
      (overlayAt 0 (writeNames size stack written ++
          if stack = [] then rest else [0]) buff,
        (writeNames size stack written).length) := by
  induction stack generalizing written rest with
  | nil => rfl
  | cons dentry stack induction =>
      have length : written.length + 1 + dentry.dName.length =
          (written ++ slash :: dentry.dName).length := by
        rw [List.length_append, List.length_cons]
        omega
      rw [copyNames, writeNames, overlayAt_name written rest short, length,
        if_neg (List.cons_ne_nil _ _)]
      by_cases full : size ≤ (written ++ slash :: dentry.dName).length
      · rw [if_pos full, if_pos full]
      · rw [if_neg full, if_neg full, induction _ [0] (Nat.le_refl 1),
          ite_self]

theorem sysGetcwdInto_eq (s : State) (fuel size : Nat) (buff : Nat → UInt8) :
    s.sysGetcwdInto fuel size buff =
      (s.sysGetcwd fuel size).map fun text =>
        (overlayAt 0 (text ++ [0]) buff, (text.length : Int)) := by
  rw [sysGetcwdInto, sysGetcwd]
  rcases s.climb fuel s.pwd [] with - | stack
  · rfl
  · cases stack with
    | nil => rfl
    | cons dentry stack =>
        have stored := copyNames_eq size (dentry :: stack) [] [] (by decide)
          buff
        rw [List.nil_append, overlayAt_nil, if_neg (List.cons_ne_nil _ _)]
          at stored
        simp only [Option.map_some]
        rw [List.length_nil] at stored
        rw [stored]

/-- Every mount but the first is mounted on something. -/
def Mounted (s : State) : Prop :=
  ∀ mnt, 0 < mnt → mnt < s.mounts.length →
    ∃ point, s.followUp ⟨mnt, .root mnt⟩ = some point

section Climb

variable {s : State}

theorem Mounted.of_mounts {final : State} (mounted : s.Mounted)
    (same : final.mounts = s.mounts) : final.Mounted := by
  unfold Mounted followUp at *
  rw [same]
  exact mounted

theorem Mounted.addMount (mounted : s.Mounted) (point : Path)
    (fs : FileSystem) : (s.addMount (some point) fs).Mounted := by
  intro mnt positive below
  rw [followUp_addMount]
  split
  · exact ⟨point, rfl⟩
  · rename_i other
    apply mounted mnt positive
    have length : (s.addMount (some point) fs).mounts.length =
        s.mounts.length + 1 := List.length_append
    change mnt ≠ s.mounts.length at other
    omega

theorem mounted_perform (wf : s.WellFormed) (mounted : s.Mounted)
    {env : Env} {call : Call} {final : State} {ret : Int}
    (returned : s.perform env call = some (final, ret)) :
    final.Mounted := by
  have follows := (pathWalk_follows wf env)
  cases call with
  | mkdir name =>
      rcases sysMkdir_cases wf returned with
        ⟨-, rfl⟩ | ⟨-, -, dir, -, -, rfl⟩
      · exact mounted
      · exact mounted.of_mounts rfl
  | chdir path =>
      rcases sysChdir_cases wf returned with
        ⟨-, walk⟩ | ⟨-, walked, nd, walk, rfl⟩
      · exact mounted.of_mounts ((follows path).2 _ _ walk).1.mounts
      · exact mounted.of_mounts ((follows path).2 _ _ walk).1.mounts
  | mount devName path type =>
      rcases sysMount_cases wf returned with
        ⟨-, rfl | ⟨result, walk⟩⟩ | ⟨-, walked, nd, fs, walk, rfl⟩
      · exact mounted
      · exact mounted.of_mounts ((follows path).2 _ _ walk).1.mounts
      · apply Mounted.addMount
        exact mounted.of_mounts ((follows path).2 _ _ walk).1.mounts
  | walk path =>
      rw [perform] at returned
      split at returned
      · cases returned
      · rename_i walk
        cases returned
        exact mounted.of_mounts ((follows path).2 _ _ walk).1.mounts
      · rename_i walk
        cases returned
        exact mounted.of_mounts ((follows path).2 _ _ walk).1.mounts

theorem Reachable.mounted (reachable : Reachable s) : s.Mounted := by
  induction reachable with
  | start fs =>
      intro mnt positive below
      exact absurd positive (Nat.not_lt_of_le (Nat.le_of_lt_succ below))
  | step reachable returned induction =>
      exact mounted_perform reachable.wellFormed induction returned

theorem exists_spells (wf : s.WellFormed) (mounted : s.Mounted) {path : Path}
    (valid : s.Valid path) : ∃ names, s.Spells names path := by
  obtain ⟨mnt, dentry⟩ := path
  -- On the mounts, and on the dentries of one mount.
  induction mnt using Nat.strongRecOn generalizing dentry with
  | ind mnt outer =>
      induction dentry with
      | root other =>
          obtain rfl : other = mnt := valid.2
          rcases Nat.eq_zero_or_pos other with rfl | positive
          · have root : s.root.dentry = .root 0 := by rw [wf.root]
            rw [← root]
            exact ⟨[], .root 0⟩
          · obtain ⟨point, followed⟩ := mounted other positive valid.1
            obtain ⟨below, pointValid⟩ := wf.mounted other point followed
            obtain ⟨names, spells⟩ := outer point.mnt below point.dentry
              pointValid
            exact ⟨names, .mount followed spells⟩
      | child parent name copy inner =>
          obtain ⟨names, spells⟩ := inner (wf.valid_dParent valid)
          exact ⟨names ++ [name], .child spells⟩

theorem climb_spells (wf : s.WellFormed) {names : List Name} {path : Path}
    (spells : s.Spells names path) :
    ∃ (stack : List Dentry) (needed : Nat),
      stack.map Dentry.dName = names ∧
      ∀ (fuel : Nat) (pushed : List Dentry), needed < fuel →
        pushed.length < pathStackSize →
        s.climb fuel path pushed =
          some (stack.drop (stack.length + pushed.length - pathStackSize) ++
            pushed) := by
  induction spells with
  | root mnt =>
      refine ⟨[], 0, rfl, ?_⟩
      intro fuel pushed enough _
      obtain ⟨fuel, rfl⟩ : ∃ rest, fuel = rest + 1 := ⟨fuel - 1, by omega⟩
      rw [climb, if_pos rfl, List.drop_nil, List.nil_append]
  | @child names mnt parent name copy _ induction =>
      obtain ⟨stack, needed, isNames, climbs⟩ := induction
      refine ⟨stack ++ [.child parent name copy], needed + 1, ?_, ?_⟩
      · rw [List.map_append, isNames]
        rfl
      · intro fuel pushed enough small
        obtain ⟨fuel, rfl⟩ : ∃ rest, fuel = rest + 1 := ⟨fuel - 1, by omega⟩
        have dropped : (stack ++ [Dentry.child parent name copy]).length +
              pushed.length - pathStackSize ≤ stack.length := by
          rw [List.length_append, List.length_singleton]
          omega
        rw [List.drop_append_of_le_length dropped, List.append_assoc,
          List.singleton_append]
        by_cases last : pathStackSize ≤ pushed.length + 1
        · rw [climb, wf.root, if_neg Dentry.noConfusion,
            if_neg Dentry.noConfusion, if_pos last, List.drop_eq_nil_of_le]
          · rfl
          · rw [List.length_append, List.length_singleton]
            omega
        · have room : pushed.length + 1 < pathStackSize := by omega
          have climbed := climbs fuel (.child parent name copy :: pushed)
            (by omega) room
          rw [climb_child wf room, climbed, List.length_cons,
            List.length_append, List.length_singleton, Nat.add_assoc,
            Nat.add_comm 1]
  | @mount names mnt point followed _ induction =>
      obtain ⟨stack, needed, isNames, climbs⟩ := induction
      refine ⟨stack, needed + 1, isNames, ?_⟩
      intro fuel pushed enough small
      obtain ⟨fuel, rfl⟩ : ∃ rest, fuel = rest + 1 := ⟨fuel - 1, by omega⟩
      have notFirst : Dentry.root mnt ≠ .root 0 := by
        intro same
        cases same
        rw [wf.followUp_first] at followed
        cases followed
      rw [climb, wf.root, if_neg notFirst, if_pos rfl, followed]
      exact climbs fuel pushed (by omega) small

end Climb

theorem length_textOf_pos (names : List Name) :
    0 < (textOf names).length := by
  rw [length_textOf, pathLength]
  cases names with
  | nil => exact Nat.one_pos
  | cons name names =>
      rw [if_neg (List.cons_ne_nil _ _), List.length_cons]
      omega

/-- The last names make a text that is no longer than that of all names. -/
theorem length_flatMap_drop_le (names : List Name) (skip : Nat) :
    ((names.drop skip).flatMap (fun name => slash :: name)).length ≤
      (textOf names).length := by
  cases names with
  | nil =>
      rw [List.drop_nil]
      exact Nat.zero_le _
  | cons name names =>
      have parts := List.take_append_drop skip (name :: names)
      rw [textOf, if_neg (List.cons_ne_nil _ _)]
      nth_rewrite 2 [← parts]
      rw [List.flatMap_append, List.length_append]
      exact Nat.le_add_left _ _

/-- Whatever the depth, the text that `sys_getcwd` stores is no longer than the
path. -/
theorem sysGetcwd_length_le {s : State} (wf : s.WellFormed)
    {names : List Name} (spells : s.Spells names s.pwd) (size : Nat) :
    ∃ needed, ∀ fuel, needed < fuel → ∃ text,
      s.sysGetcwd fuel size = some text ∧
        text.length ≤ (textOf names).length := by
  obtain ⟨stack, needed, isNames, climbs⟩ := climb_spells wf spells
  refine ⟨needed, ?_⟩
  intro fuel enough
  have climbed := climbs fuel [] enough (by decide)
  rw [List.append_nil] at climbed
  have short := length_flatMap_drop_le names
    (stack.length + ([] : List Dentry).length - pathStackSize)
  rw [← isNames, ← List.map_drop] at short
  rw [sysGetcwd, climbed]
  cases isStack :
      stack.drop (stack.length + ([] : List Dentry).length - pathStackSize)
    with
  | nil => exact ⟨[slash], rfl, length_textOf_pos names⟩
  | cons dentry rest =>
      rw [isStack] at short
      refine ⟨writeNames size (dentry :: rest) [], rfl, ?_⟩
      have length := length_writeNames_le size (dentry :: rest) []
      rw [List.length_nil, Nat.zero_add] at length
      rw [← isNames]
      exact Nat.le_trans length short

/-- `sys_getcwd` respects its buffer if and only if the path and its zero fit
into it. -/
theorem respectsBuffer_iff {s : State} (reachable : Reachable s) :
    ∃ names, s.Spells names s.pwd ∧ ∀ size, 1 ≤ size →
      (s.RespectsBuffer names size ↔ pathLength names < size) := by
  have wf := reachable.wellFormed
  obtain ⟨names, spells⟩ := exists_spells wf reachable.mounted wf.pwd
  refine ⟨names, spells, ?_⟩
  intro size _
  constructor
  · rintro ⟨needed, respects⟩
    obtain ⟨final, count, returned, -, fits⟩ := respects (needed + 1)
      (Nat.lt_succ_self _) fun _ => 0
    rw [sysGetcwdInto_eq] at returned
    obtain ⟨text, -, result⟩ := Option.map_eq_some_iff.mp returned
    cases result
    have small := fits (Int.natCast_nonneg _)
    rw [length_textOf] at small
    exact small
  · intro fits
    obtain ⟨needed, writes⟩ := sysGetcwd_length_le wf spells size
    refine ⟨needed, ?_⟩
    intro fuel enough buff
    obtain ⟨text, written, short⟩ := writes fuel enough
    refine ⟨overlayAt 0 (text ++ [0]) buff, (text.length : Int), ?_, ?_, ?_⟩
    · rw [sysGetcwdInto_eq, written]
      rfl
    · intro index outside
      rw [length_textOf] at short
      rw [overlayAt, if_neg (Nat.not_lt_zero _), List.getD_eq_getElem?_getD,
        List.getElem?_eq_none, Option.getD_none]
      rw [List.length_append, List.length_singleton]
      omega
    · intro _
      rw [length_textOf]
      exact fits

theorem treeInA_reachable : Reachable treeInA := by
  have returned : treeWithA.perform (roomy none) (.chdir [97]) =
      some (treeInA, 0) := rfl
  exact .step treeWithA_reachable returned

theorem respectsBuffer_inA :
    ∃ names, treeInA.Spells names treeInA.pwd ∧ ∀ size, 1 ≤ size →
      (treeInA.RespectsBuffer names size ↔ pathLength names < size) :=
  respectsBuffer_iff treeInA_reachable

/-- The zero behind `/` is stored behind a buffer of one byte. -/
theorem not_respectsBuffer :
    ¬ ∀ s, Reachable s → ∃ names, s.Spells names s.pwd ∧
      ∀ size, 1 ≤ size → s.RespectsBuffer names size := by
  intro always
  obtain ⟨names, -, respects⟩ := always (mountRoot .ramfs) (.start .ramfs)
  obtain ⟨needed, stores⟩ := respects 1 (Nat.le_refl 1)
  obtain ⟨final, count, returned, inside, -⟩ := stores (needed + 1)
    (Nat.lt_succ_self _) fun _ => 7
  have atRoot : (mountRoot .ramfs).sysGetcwdInto (needed + 1) 1
      (fun _ => 7) = some (overlayAt 0 [slash, 0] fun _ => 7, 1) := rfl
  rw [atRoot] at returned
  cases returned
  exact absurd (inside 1 (Nat.le_refl 1)) (by decide)

end Witos.Vfs.State
