import Witos.Library.Bytes
import Witos.Shell.LineEditor

/-!
# What the editing functions do to a line

The loops shift bytes in place.  Their effect is said byte by byte, and from it
follows what becomes of the text.  Each function also says when all its stores
are inside the buffer.
-/

namespace Witos.Shell.Line

open Library

@[simp] theorem shiftUp_curPos (stop index : Nat) (line : Line) :
    (line.shiftUp stop index).curPos = line.curPos := by
  fun_induction shiftUp stop index line <;> simp_all [store]

@[simp] theorem shiftUp_curMax (stop index : Nat) (line : Line) :
    (line.shiftUp stop index).curMax = line.curMax := by
  fun_induction shiftUp stop index line <;> simp_all [store]

theorem shiftUp_bytes (stop index : Nat) (line : Line) (place : Nat) :
    (line.shiftUp stop index).bytes place =
      if stop < place ∧ place ≤ index then line.bytes (place - 1)
      else line.bytes place := by
  fun_induction shiftUp stop index line with
  | case1 line =>
      have outside : ¬(stop < place ∧ place ≤ 0) := by omega
      rw [if_neg outside]
  | case2 index line above induction =>
      rw [induction]
      simp only [store]
      by_cases last : place = index + 1
      · subst last
        simp [above]
      · by_cases within : stop < place ∧ place ≤ index
        · have shifted : place - 1 ≠ index + 1 := by omega
          have longer : stop < place ∧ place ≤ index + 1 := by omega
          rw [if_pos within, if_pos longer, if_neg shifted]
        · have longer : ¬(stop < place ∧ place ≤ index + 1) := by omega
          rw [if_neg within, if_neg longer, if_neg last]
  | case3 index line below =>
      have outside : ¬(stop < place ∧ place ≤ index + 1) := by omega
      rw [if_neg outside]

theorem shiftUp_inside (stop index : Nat) (line : Line) :
    (line.shiftUp stop index).inside =
      (line.inside && decide (stop < index → index < maxArgLen)) := by
  fun_induction shiftUp stop index line with
  | case1 line => simp
  | case2 index line above induction =>
      rw [induction]
      by_cases room : index + 1 < maxArgLen
      · have below : index < maxArgLen := by omega
        simp [store, room, below]
      · simp [store, room, above]
  | case3 index line below => simp [below]

@[simp] theorem shiftDown_curPos (count index : Nat) (line : Line) :
    (line.shiftDown count index).curPos = line.curPos := by
  fun_induction shiftDown count index line <;> simp_all [store]

@[simp] theorem shiftDown_curMax (count index : Nat) (line : Line) :
    (line.shiftDown count index).curMax = line.curMax := by
  fun_induction shiftDown count index line <;> simp_all [store]

theorem shiftDown_bytes (count index : Nat) (line : Line) (place : Nat)
    (positive : 0 < index) :
    (line.shiftDown count index).bytes place =
      if index ≤ place + 1 ∧ place + 1 < index + count then
        line.bytes (place + 1)
      else line.bytes place := by
  fun_induction shiftDown count index line with
  | case1 index line =>
      have outside : ¬(index ≤ place + 1 ∧ place + 1 < index + 0) := by
        omega
      rw [if_neg outside]
  | case2 count index line induction =>
      rw [induction (by omega)]
      simp only [store]
      by_cases first : place = index - 1
      · have here : place + 1 = index := by omega
        subst here
        simp
      · by_cases within : index ≤ place + 1 ∧
            place + 1 < index + (count + 1)
        · have later : index + 1 ≤ place + 1 ∧
              place + 1 < index + 1 + count := by omega
          have other : place + 1 ≠ index - 1 := by omega
          rw [if_pos within, if_pos later, if_neg other]
        · have later : ¬(index + 1 ≤ place + 1 ∧
              place + 1 < index + 1 + count) := by omega
          rw [if_neg within, if_neg later, if_neg first]

theorem shiftDown_inside (count index : Nat) (line : Line)
    (room : index + count ≤ maxArgLen + 1) (positive : 0 < index) :
    (line.shiftDown count index).inside = line.inside := by
  fun_induction shiftDown count index line with
  | case1 index line => rfl
  | case2 count index line induction =>
      have below : index - 1 < maxArgLen := by omega
      rw [induction (by omega) (by omega)]
      simp [store, below]

@[simp] theorem storeAll_curPos (index : Nat) (bytes : List UInt8)
    (line : Line) : (line.storeAll index bytes).curPos = line.curPos := by
  fun_induction storeAll index bytes line <;> simp_all [store]

@[simp] theorem storeAll_curMax (index : Nat) (bytes : List UInt8)
    (line : Line) : (line.storeAll index bytes).curMax = line.curMax := by
  fun_induction storeAll index bytes line <;> simp_all [store]

theorem storeAll_bytes (index : Nat) (bytes : List UInt8) (line : Line) :
    (line.storeAll index bytes).bytes =
      overlayAt index bytes line.bytes := by
  fun_induction storeAll index bytes line with
  | case1 index line => rw [overlayAt_nil]
  | case2 index byte others line induction =>
      have first : (line.store index byte).bytes =
          overlayAt index [byte] line.bytes := by
        rw [overlayAt_singleton]
        funext place
        exact (Function.update_apply _ _ _ _).symm
      rw [induction, first]
      exact overlayAt_append index [byte] others line.bytes

theorem storeAll_inside (index : Nat) (bytes : List UInt8) (line : Line)
    (room : index + bytes.length ≤ maxArgLen) :
    (line.storeAll index bytes).inside = line.inside := by
  fun_induction storeAll index bytes line with
  | case1 index line => rfl
  | case2 index byte others line induction =>
      simp only [List.length_cons] at room
      have below : index < maxArgLen := by omega
      rw [induction (by omega)]
      simp [store, below]

@[simp] theorem insertOneKey_curPos (char : UInt8) (line : Line) :
    (line.insertOneKey char).curPos = line.curPos + 1 :=
  rfl

@[simp] theorem insertOneKey_curMax (char : UInt8) (line : Line) :
    (line.insertOneKey char).curMax = line.curMax + 1 :=
  rfl

@[simp] theorem length_text (line : Line) :
    line.text.length = line.curMax := by
  simp [text]

theorem getElem_text (line : Line) (index : Nat)
    (bound : index < line.text.length) :
    line.text[index] = line.bytes index := by
  simp [text]

theorem text_of_bytes {line : Line} {items : List UInt8}
    (length : line.curMax = items.length)
    (same : ∀ index (bound : index < items.length),
      line.bytes index = items[index]) : line.text = items := by
  apply List.ext_getElem
  · rw [length_text, length]
  · intro index left right
    rw [getElem_text, same index right]

theorem insertOneKey_text (char : UInt8) (line : Line)
    (order : line.curPos ≤ line.curMax) :
    (line.insertOneKey char).text =
      line.text.take line.curPos ++ char :: line.text.drop line.curPos := by
  apply text_of_bytes
  · simp
    omega
  · intro index bound
    simp only [insertOneKey, store, shiftUp_bytes]
    grind [text]

theorem backspaceOneKey_text (line : Line) (positive : 0 < line.curPos)
    (order : line.curPos ≤ line.curMax) :
    line.backspaceOneKey.text =
      line.text.take (line.curPos - 1) ++ line.text.drop line.curPos := by
  apply text_of_bytes
  · simp [backspaceOneKey]
    omega
  · intro index bound
    simp only [backspaceOneKey, store,
      shiftDown_bytes _ _ _ _ positive]
    grind [text]

theorem deleteOneKey_text (line : Line)
    (order : line.curPos ≤ line.curMax) :
    line.deleteOneKey.text =
      line.text.take line.curPos ++ line.text.drop (line.curPos + 1) := by
  unfold deleteOneKey
  split
  · rename_i atEnd
    have all : line.text.take line.curPos = line.text :=
      List.take_of_length_le (by simp [atEnd])
    have rest : line.text.drop (line.curPos + 1) = [] :=
      List.drop_of_length_le (by simp [atEnd])
    rw [all, rest, List.append_nil]
  · rename_i inner
    apply text_of_bytes
    · simp
      omega
    · intro index bound
      simp only [store, shiftDown_bytes _ _ _ _ (Nat.succ_pos _)]
      grind [text]

theorem recalled_text (command : List UInt8) (line : Line) :
    (line.recalled command).text = command := by
  apply text_of_bytes
  · rfl
  · intro index bound
    let erased := line.storeAll 0 (List.replicate line.curPos 0)
    have lies : Lies (overlayAt 0 (command ++ [0]) erased.bytes) 0
        (command ++ [0]) :=
      slice_overlayAt 0 (command ++ [0]) erased.bytes
    have inside : index < (command ++ [0]).length := by
      rw [List.length_append]
      exact Nat.lt_add_right _ bound
    have cell := lies.getElem inside
    rw [← storeAll_bytes, Nat.zero_add, List.getElem_append_left bound] at cell
    exact cell

@[simp] theorem backspaceOneKey_curPos (line : Line) :
    line.backspaceOneKey.curPos = line.curPos - 1 :=
  rfl

@[simp] theorem backspaceOneKey_curMax (line : Line) :
    line.backspaceOneKey.curMax = line.curMax - 1 :=
  rfl

@[simp] theorem deleteOneKey_curPos (line : Line) :
    line.deleteOneKey.curPos = line.curPos := by
  unfold deleteOneKey
  split
  · rfl
  · simp [store]

@[simp] theorem cmdLeftKey_text (line : Line) :
    line.cmdLeftKey.text = line.text := by
  unfold cmdLeftKey
  split <;> rfl

@[simp] theorem cmdLeftKey_curPos (line : Line) :
    line.cmdLeftKey.curPos = line.curPos - 1 := by
  unfold cmdLeftKey
  split
  · rfl
  · omega

@[simp] theorem cmdRightKey_text (line : Line) :
    line.cmdRightKey.text = line.text := by
  unfold cmdRightKey
  split <;> rfl

theorem cmdRightKey_curPos (line : Line) :
    line.cmdRightKey.curPos =
      if line.curPos < line.curMax then line.curPos + 1
      else line.curPos := by
  unfold cmdRightKey
  split <;> rfl

theorem store_inside {index : Nat} {line : Line} (byte : UInt8)
    (room : index < maxArgLen) :
    (line.store index byte).inside = line.inside := by
  simp [store, room]

theorem insertOneKey_inside {line : Line} (char : UInt8)
    (order : line.curPos ≤ line.curMax) (room : line.curMax < maxArgLen) :
    (line.insertOneKey char).inside = line.inside := by
  have here : line.curPos < maxArgLen := by omega
  simp [insertOneKey, store, shiftUp_inside, room, here]

theorem backspaceOneKey_inside {line : Line} (positive : 0 < line.curPos)
    (order : line.curPos ≤ line.curMax) (room : line.curMax ≤ maxArgLen) :
    line.backspaceOneKey.inside = line.inside := by
  have last : line.curMax - 1 < maxArgLen := by omega
  have shifted := shiftDown_inside (line.curMax - line.curPos) line.curPos
    line (by omega) positive
  simp [backspaceOneKey, store, shifted, last]

theorem deleteOneKey_inside {line : Line}
    (order : line.curPos ≤ line.curMax) (room : line.curMax < maxArgLen) :
    line.deleteOneKey.inside = line.inside := by
  unfold deleteOneKey
  split
  · rfl
  · have shifted := shiftDown_inside (line.curMax - 1 - line.curPos)
      (line.curPos + 1) line (by omega) (by omega)
    simp [store, shifted, room]

theorem recalled_inside {line : Line} {command : List UInt8}
    (cursor : line.curPos ≤ maxArgLen) (room : command.length < maxArgLen) :
    (line.recalled command).inside = line.inside := by
  have erased := storeAll_inside 0 (List.replicate line.curPos 0) line
    (by simpa using cursor)
  simp only [recalled]
  rw [storeAll_inside, erased]
  simp
  omega

theorem clear_inside (line : Line) : line.clear.inside = line.inside := by
  simp only [clear]
  rw [storeAll_inside]
  simp

end Witos.Shell.Line

namespace Witos.Shell.Editor

open Library

theorem run_append (names : List (List UInt8))
    (first second : List (UInt8 × Surroundings)) (editor : Editor) :
    editor.run names (first ++ second) =
      (editor.run names first).run names second :=
  Trace.run_append first second editor

theorem run_concat (names : List (List UInt8))
    (inputs : List (UInt8 × Surroundings)) (char : UInt8)
    (surroundings : Surroundings) (editor : Editor) :
    editor.run names (inputs ++ [(char, surroundings)]) =
      (editor.run names inputs).step names char surroundings :=
  Trace.run_append inputs [(char, surroundings)] editor

end Witos.Shell.Editor
