import Witos.Extra.NumberText

/-!
# MAC addresses in text form

The strings on which `str_to_mac` of `lib/extra/strex.c` is right, and where it
accesses its buffer.
-/

namespace Witos.Extra

open Library

/-- The indices at which `hex_str_to_val` reads a string from `index` on. -/
def hexReads : List UInt8 → Nat → Nat → List Nat
  | [], _, index => [index]
  | char :: str, len, index =>
      index ::
        if (hexDigit char).isNone ∨ 8 < len + 1 then []
        else hexReads str (len + 1) (index + 1)

/-- The indices of `buf` that the loop of `str_to_mac` accesses from `i` on;
`p` are the characters behind the last separator, and `j` the bytes so far. -/
def macReads : List UInt8 → List UInt8 → Nat → Nat → List Nat
  | [], _, _, _ => []
  | char :: buf, p, i, j =>
      if j = macAdrLen then []
      else
        i ::
          if char = macSeparator ∨ char = 0 then
            hexReads p 0 (i - p.length) ++
              match hexStrToVal p with
              | some (len, num) =>
                  if 0 < len ∧ num ≤ 255 then macReads buf [] (i + 1) (j + 1)
                  else []
              | none => []
          else macReads buf (p ++ [char]) (i + 1) j

/-- `buf` behind `strncpy`. -/
def macBuf (str : List UInt8) : List UInt8 :=
  str.take macStrLen ++ List.replicate (macStrLen - str.length) 0

/-- The indices of `buf` that `str_to_mac` accesses; `strncpy` fills it. -/
def macAccesses (behind : UInt8) (str : List UInt8) : List Nat :=
  List.range macStrLen ++ macReads (macBuf str ++ [behind]) [] 0 0

/-- One or two hexadecimal digits. -/
def IsMacGroup (group : List UInt8) (byte : UInt8) : Prop :=
  ∃ digits : List Nat, group.map hexDigit = digits.map some ∧
    1 ≤ group.length ∧ group.length ≤ 2 ∧ byte.toNat = numeral 16 0 digits

/-- Six groups with separators between them. -/
def IsMac (str mac : List UInt8) : Prop :=
  ∃ groups, groups.length = macAdrLen ∧
    List.Forall₂ IsMacGroup groups mac ∧
      str = [macSeparator].intercalate groups

/-- A string is accepted exactly if it is an address, and read as it, and only
the buffer is accessed. -/
def ExactMac (str : List UInt8) : Prop :=
  ∀ behind,
    (∀ mac, strToMac behind str = some mac ↔ IsMac str mac) ∧
      ∀ index ∈ macAccesses behind str, index < macStrLen

def isMacEnd (char : UInt8) : Bool :=
  char = macSeparator ∨ char = 0

/-- The groups behind which there is a separator or the end of the string. -/
def endedGroups (buf : List UInt8) : List (List UInt8) :=
  (buf.splitOnP isMacEnd).dropLast

/-- A group that is a byte, with zeros in front of it at will. -/
def IsByteGroup (group : List UInt8) (byte : UInt8) : Prop :=
  ∃ digits : List Nat, group.map hexDigit = digits.map some ∧
    1 ≤ group.length ∧ group.length ≤ 8 ∧ byte.toNat = numeral 16 0 digits

/-- The string is an address, or one of the first six groups in the buffer is
no byte. -/
def MacDecided (str : List UInt8) : Prop :=
  (∃ mac, IsMac str mac) ∨
    ∃ group ∈ (endedGroups (macBuf str)).take macAdrLen,
      ∀ byte, ¬IsByteGroup group byte

theorem endedGroups_of_none {buf : List UInt8}
    (noEnd : ∀ char ∈ buf, isMacEnd char = false) : endedGroups buf = [] := by
  rw [endedGroups, List.splitOnP_eq_singleton noEnd]
  rfl

theorem endedGroups_append {group : List UInt8} {char : UInt8}
    (noEnd : ∀ char ∈ group, isMacEnd char = false)
    (isEnd : isMacEnd char = true) (buf : List UInt8) :
    endedGroups (group ++ char :: buf) = group :: endedGroups buf := by
  rw [endedGroups, List.splitOnP_append_cons_of_forall_mem noEnd char isEnd,
    List.dropLast_cons_of_ne_nil (List.splitOnP_ne_nil _ _)]
  rfl

theorem isByteGroup_iff {group : List UInt8} {byte : UInt8} :
    IsByteGroup group byte ↔
      ∃ len num, hexStrToVal group = some (len, num) ∧ 0 < len ∧ num ≤ 255 ∧
        byte = UInt8.ofNat num := by
  simp only [hexStrToVal_eq_some_iff]
  constructor
  · rintro ⟨digits, same, some_, short, value⟩
    have bound := byte.toNat_lt
    refine ⟨_, _, ⟨digits, same, short, rfl, rfl⟩, some_, by omega, ?_⟩
    rw [← value, UInt8.ofNat_toNat]
  · rintro ⟨len, num, ⟨digits, same, short, rfl, rfl⟩, some_, small, rfl⟩
    refine ⟨digits, same, some_, short, ?_⟩
    rw [UInt8.toNat_ofNat']
    exact Nat.mod_eq_of_lt (by omega)

theorem hexReads_le {str : List UInt8} {len start index : Nat}
    (member : index ∈ hexReads str len start) :
    index ≤ start + str.length := by
  induction str generalizing len start with
  | nil =>
      have same : index = start := List.mem_singleton.mp member
      simp [same]
  | cons char str induction =>
      rw [List.length_cons]
      rw [hexReads] at member
      rcases List.mem_cons.mp member with rfl | later
      · omega
      · split at later
        · cases later
        · have bound := induction later
          omega

/-- How the loop ends over a buffer in which it is at `i`, with the groups that
it still reads. -/
inductive MacEnds (groups : List (List UInt8)) (more last : Nat)
    (mac : List UInt8) (read : Option (List UInt8)) (reads : List Nat) : Prop
  | accepts (bytes : List UInt8)
      (each : List.Forall₂ IsByteGroup groups bytes)
      (all : groups.length = more)
      (result : read = some (mac ++ bytes))
      (inside : ∀ index ∈ reads, index < last)
  | rejects (group : List UInt8) (member : group ∈ groups)
      (noByte : ∀ byte, ¬IsByteGroup group byte)
      (result : read = none)
      (inside : ∀ index ∈ reads, index < last)
  | leaves
      (each : ∀ group ∈ groups, ∃ byte, IsByteGroup group byte)
      (few : groups.length < more)
      (outside : last ∈ reads)

section Ends

variable {groups : List (List UInt8)} {more last : Nat} {mac : List UInt8}
  {read : Option (List UInt8)} {reads : List Nat}

theorem MacEnds.before (ends : MacEnds groups more last mac read reads)
    {earlier : List Nat} (inside : ∀ index ∈ earlier, index < last) :
    MacEnds groups more last mac read (earlier ++ reads) := by
  have within (behind : ∀ index ∈ reads, index < last) :
      ∀ index ∈ earlier ++ reads, index < last := by
    intro index member
    rcases List.mem_append.mp member with before | after
    · exact inside index before
    · exact behind index after
  cases ends with
  | accepts bytes each all result behind =>
      exact .accepts bytes each all result (within behind)
  | rejects group member noByte result behind =>
      exact .rejects group member noByte result (within behind)
  | leaves each few outside =>
      exact .leaves each few (List.mem_append_right _ outside)

theorem MacEnds.cons {group : List UInt8} {byte : UInt8}
    (ends : MacEnds groups more last (mac ++ [byte]) read reads)
    (isByte : IsByteGroup group byte) :
    MacEnds (group :: groups) (more + 1) last mac read reads := by
  cases ends with
  | accepts bytes each all result behind =>
      refine .accepts (byte :: bytes) (.cons isByte each) ?_ ?_ behind
      · rw [List.length_cons, all]
      · rw [result, List.append_assoc, List.singleton_append]
  | rejects other member noByte result behind =>
      exact .rejects other (List.mem_cons_of_mem _ member) noByte result
        behind
  | leaves each few outside =>
      refine .leaves ?_ ?_ outside
      · exact List.forall_mem_cons.mpr ⟨⟨byte, isByte⟩, each⟩
      · rw [List.length_cons]
        omega

end Ends

theorem macEnds_full {buf mac : List UInt8} (some_ : buf ≠ [])
    (full : mac.length = macAdrLen) (p : List UInt8) (i last : Nat) :
    MacEnds [] 0 last mac (strToMacLoop buf p mac)
      (macReads buf p i mac.length) := by
  obtain ⟨char, buf, rfl⟩ := List.exists_cons_of_ne_nil some_
  refine .accepts [] .nil rfl ?_ ?_
  · rw [strToMacLoop, if_pos full, List.append_nil]
  · rw [macReads, if_pos full]
    exact fun index member => absurd member List.not_mem_nil

theorem macEnds_group {groups : List (List UInt8)} {more last i : Nat}
    {buf p mac : List UInt8} {char : UInt8}
    (isEnd : char = macSeparator ∨ char = 0)
    (goesOn : ¬mac.length = macAdrLen) (room : p.length ≤ i)
    (within : i < last)
    (later : ∀ byte, MacEnds groups more last (mac ++ [byte])
      (strToMacLoop buf [] (mac ++ [byte]))
      (macReads buf [] (i + 1) (mac.length + 1))) :
    MacEnds (p :: groups) (more + 1) last mac
      (strToMacLoop (char :: buf) p mac)
      (macReads (char :: buf) p i mac.length) := by
  have inside : ∀ index ∈ i :: hexReads p 0 (i - p.length),
      index < last := by
    intro index member
    rcases List.mem_cons.mp member with rfl | inGroup
    · exact within
    · have bound := hexReads_le inGroup
      omega
  have noByte (bad : ∀ len num, hexStrToVal p = some (len, num) →
      ¬(0 < len ∧ num ≤ 255)) (byte : UInt8) : ¬IsByteGroup p byte := by
    intro isByte
    obtain ⟨len, num, read, some_, small, -⟩ := isByteGroup_iff.mp isByte
    exact bad len num read ⟨some_, small⟩
  rw [strToMacLoop, if_neg goesOn, if_pos isEnd, macReads, if_neg goesOn,
    if_pos isEnd]
  change MacEnds _ _ _ _ _ ((i :: hexReads p 0 (i - p.length)) ++ _)
  refine MacEnds.before ?_ inside
  cases read : hexStrToVal p with
  | none =>
      refine .rejects p List.mem_cons_self (noByte ?_) rfl ?_
      · intro len num found
        rw [read] at found
        cases found
      · exact fun index member => absurd member List.not_mem_nil
  | some found =>
      obtain ⟨len, num⟩ := found
      dsimp only
      by_cases good : 0 < len ∧ num ≤ 255
      · have isByte : IsByteGroup p (UInt8.ofNat num) :=
          isByteGroup_iff.mpr ⟨len, num, read, good.1, good.2, rfl⟩
        rw [if_pos good, if_pos good]
        exact (later _).cons isByte
      · rw [if_neg good, if_neg good]
        refine .rejects p List.mem_cons_self (noByte ?_) rfl ?_
        · intro other value found
          rw [read] at found
          obtain ⟨rfl, rfl⟩ := Prod.mk.inj (Option.some.inj found)
          exact good
        · exact fun index member => absurd member List.not_mem_nil

theorem macEnds_char {groups : List (List UInt8)} {more last i : Nat}
    {buf p mac : List UInt8} {char : UInt8}
    (other : ¬(char = macSeparator ∨ char = 0))
    (goesOn : ¬mac.length = macAdrLen) (within : i < last)
    (later : MacEnds groups more last mac
      (strToMacLoop buf (p ++ [char]) mac)
      (macReads buf (p ++ [char]) (i + 1) mac.length)) :
    MacEnds groups more last mac (strToMacLoop (char :: buf) p mac)
      (macReads (char :: buf) p i mac.length) := by
  have inside : ∀ index ∈ [i], index < last := by
    intro index member
    rw [List.mem_singleton.mp member]
    exact within
  rw [strToMacLoop, if_neg goesOn, if_neg other, macReads, if_neg goesOn,
    if_neg other]
  exact later.before inside

theorem strToMacLoop_ends (behind : UInt8) {buf p mac : List UInt8} {i : Nat}
    (noEnd : ∀ char ∈ p, isMacEnd char = false) (room : p.length ≤ i)
    {more : Nat} (rest : mac.length + more = macAdrLen) :
    MacEnds ((endedGroups (p ++ buf)).take more) more (i + buf.length) mac
      (strToMacLoop (buf ++ [behind]) p mac)
      (macReads (buf ++ [behind]) p i mac.length) := by
  induction buf generalizing p mac i more with
  | nil =>
      by_cases full : mac.length = macAdrLen
      · obtain rfl : more = 0 := by omega
        exact macEnds_full (List.cons_ne_nil _ _) full p i _
      · rw [List.append_nil, endedGroups_of_none noEnd, List.take_nil,
          List.nil_append]
        refine .leaves (fun group member => absurd member List.not_mem_nil)
          (by rw [List.length_nil]; omega) ?_
        rw [macReads, if_neg full]
        exact List.mem_cons_self
  | cons char buf induction =>
      by_cases full : mac.length = macAdrLen
      · obtain rfl : more = 0 := by omega
        exact macEnds_full (List.cons_ne_nil _ _) full p i _
      · obtain ⟨less, rfl⟩ : ∃ less, more = less + 1 := ⟨more - 1, by omega⟩
        have last : i + (char :: buf).length = i + 1 + buf.length := by
          rw [List.length_cons]
          omega
        rw [List.cons_append, last]
        by_cases isEnd : char = macSeparator ∨ char = 0
        · rw [endedGroups_append noEnd (decide_eq_true isEnd),
            List.take_succ_cons]
          refine macEnds_group isEnd full room (by omega) fun byte => ?_
          have noneYet : ∀ char ∈ ([] : List UInt8),
              isMacEnd char = false :=
            fun char member => absurd member List.not_mem_nil
          have count : (mac ++ [byte]).length = mac.length + 1 := by
            rw [List.length_append, List.length_singleton]
          have rest : (mac ++ [byte]).length + less = macAdrLen := by omega
          have ends := induction noneYet (Nat.zero_le (i + 1)) rest
          rw [List.nil_append, count] at ends
          exact ends
        · have noEndYet : ∀ other ∈ p ++ [char], isMacEnd other = false := by
            intro other member
            rcases List.mem_append.mp member with before | same
            · exact noEnd other before
            · rw [List.mem_singleton.mp same]
              exact decide_eq_false isEnd
          have longer : (p ++ [char]).length ≤ i + 1 := by
            rw [List.length_append, List.length_singleton]
            omega
          have ends := induction noEndYet longer rest
          rw [List.append_assoc, List.singleton_append] at ends
          exact macEnds_char isEnd full (by omega) ends

theorem IsMacGroup.isByteGroup {group : List UInt8} {byte : UInt8}
    (isGroup : IsMacGroup group byte) : IsByteGroup group byte := by
  obtain ⟨digits, same, some_, short, value⟩ := isGroup
  exact ⟨digits, same, some_, by omega, value⟩

theorem IsMacGroup.noEnd {group : List UInt8} {byte : UInt8}
    (isGroup : IsMacGroup group byte) :
    ∀ char ∈ group, isMacEnd char = false := by
  obtain ⟨digits, same, -⟩ := isGroup
  intro char member
  have isDigitChar : hexDigit char ∈ digits.map some := by
    rw [← same]
    exact List.mem_map_of_mem member
  obtain ⟨digit, -, found⟩ := List.mem_map.mp isDigitChar
  have noDigit : hexDigit macSeparator = none ∧ hexDigit 0 = none := by
    decide
  apply decide_eq_false
  rintro (rfl | rfl)
  · rw [noDigit.1] at found
    cases found
  · rw [noDigit.2] at found
    cases found

theorem isByteGroup_unique {group : List UInt8} {left right : UInt8}
    (isLeft : IsByteGroup group left) (isRight : IsByteGroup group right) :
    left = right := by
  obtain ⟨len, num, read, -, -, rfl⟩ := isByteGroup_iff.mp isLeft
  obtain ⟨other, value, again, -, -, rfl⟩ := isByteGroup_iff.mp isRight
  rw [read] at again
  obtain ⟨-, rfl⟩ := Prod.mk.inj (Option.some.inj again)
  rfl

theorem endedGroups_intercalate {groups : List (List UInt8)}
    (some_ : groups ≠ [])
    (noEnd : ∀ group ∈ groups, ∀ char ∈ group, isMacEnd char = false)
    (rest : List UInt8) :
    endedGroups ([macSeparator].intercalate groups ++ 0 :: rest) =
      groups ++ endedGroups rest := by
  induction groups with
  | nil => exact absurd rfl some_
  | cons group groups induction =>
      obtain ⟨first, others⟩ := List.forall_mem_cons.mp noEnd
      cases groups with
      | nil =>
          rw [List.intercalate_singleton]
          exact endedGroups_append first (by decide) rest
      | cons second groups =>
          rw [List.intercalate_cons_cons, List.append_assoc,
            List.append_assoc, List.singleton_append,
            endedGroups_append first (by decide),
            induction (List.cons_ne_nil _ _) others]
          rfl

theorem length_intercalate_lt {groups : List (List UInt8)}
    (some_ : groups ≠ []) (short : ∀ group ∈ groups, group.length ≤ 2) :
    ([macSeparator].intercalate groups).length < 3 * groups.length := by
  induction groups with
  | nil => exact absurd rfl some_
  | cons group groups induction =>
      obtain ⟨first, others⟩ := List.forall_mem_cons.mp short
      cases groups with
      | nil =>
          rw [List.intercalate_singleton, List.length_singleton]
          omega
      | cons second groups =>
          have rest := induction (List.cons_ne_nil _ _) others
          rw [List.intercalate_cons_cons]
          simp only [List.length_append, List.length_cons, List.length_nil] at *
          omega

theorem exists_of_forall₂ {relation : List UInt8 → UInt8 → Prop}
    {groups : List (List UInt8)} {mac : List UInt8}
    (each : List.Forall₂ relation groups mac) {group : List UInt8}
    (member : group ∈ groups) : ∃ byte, relation group byte := by
  induction each with
  | nil => cases member
  | cons related _ induction =>
      rcases List.mem_cons.mp member with rfl | later
      · exact ⟨_, related⟩
      · exact induction later

theorem macBuf_length (str : List UInt8) :
    (macBuf str).length = macStrLen := by
  rw [macBuf, List.length_append, List.length_take, List.length_replicate]
  omega

/-- How `str_to_mac` ends. -/
theorem strToMac_ends (behind : UInt8) (str : List UInt8) :
    MacEnds ((endedGroups (macBuf str)).take macAdrLen) macAdrLen macStrLen []
      (strToMac behind str) (macAccesses behind str) := by
  have noneYet : ∀ char ∈ ([] : List UInt8), isMacEnd char = false :=
    fun char member => absurd member List.not_mem_nil
  have ends : MacEnds ((endedGroups ([] ++ macBuf str)).take macAdrLen)
      macAdrLen (0 + (macBuf str).length) [] _ _ :=
    strToMacLoop_ends behind noneYet (Nat.zero_le 0) (Nat.zero_add macAdrLen)
  rw [List.nil_append, Nat.zero_add, macBuf_length] at ends
  exact ends.before (fun index member => List.mem_range.mp member)

theorem strToMac_of_isMac {str mac : List UInt8} (isMac : IsMac str mac)
    (behind : UInt8) :
    strToMac behind str = some mac ∧
      ∀ index ∈ macAccesses behind str, index < macStrLen := by
  have ends := strToMac_ends behind str
  obtain ⟨groups, six, each, rfl⟩ := isMac
  have some_ : groups ≠ [] := by
    rintro rfl
    cases six
  have short : ∀ group ∈ groups, group.length ≤ 2 := by
    intro group member
    obtain ⟨byte, digits, -, -, short, -⟩ := exists_of_forall₂ each member
    exact short
  have noEnd : ∀ group ∈ groups, ∀ char ∈ group, isMacEnd char = false := by
    intro group member
    obtain ⟨byte, isGroup⟩ := exists_of_forall₂ each member
    exact isGroup.noEnd
  have isByte : List.Forall₂ IsByteGroup groups mac :=
    each.imp fun _ _ => IsMacGroup.isByteGroup
  have inBuf : (endedGroups (macBuf ([macSeparator].intercalate groups))).take
      macAdrLen = groups := by
    have fits := length_intercalate_lt some_ short
    rw [six] at fits
    have room : macStrLen - ([macSeparator].intercalate groups).length =
        macStrLen - ([macSeparator].intercalate groups).length - 1 + 1 := by
      unfold macStrLen
      unfold macAdrLen at fits
      omega
    have whole : ([macSeparator].intercalate groups).take macStrLen =
        [macSeparator].intercalate groups := by
      apply List.take_of_length_le
      exact Nat.le_of_lt fits
    rw [macBuf, whole, room, List.replicate_succ,
      endedGroups_intercalate some_ noEnd, ← six, List.take_left]
  rw [inBuf] at ends
  cases ends with
  | accepts bytes each' all result inside =>
      have unique : Relator.RightUnique IsByteGroup :=
        fun _ _ _ => isByteGroup_unique
      obtain rfl := unique.forall₂ isByte each'
      exact ⟨result, inside⟩
  | rejects group member noByte result inside =>
      obtain ⟨byte, isGroup⟩ := exists_of_forall₂ isByte member
      exact absurd isGroup (noByte byte)
  | leaves each' few outside =>
      rw [six] at few
      exact absurd few (Nat.lt_irrefl _)

/-- `str_to_mac` is right on a string exactly if it is an address, or one of
the first six groups in the buffer is no byte. -/
theorem strToMac_exact_iff (str : List UInt8) :
    ExactMac str ↔ MacDecided str := by
  constructor
  · intro exact_
    have ends := strToMac_ends 0 str
    obtain ⟨told, inside⟩ := exact_ 0
    cases ends with
    | accepts bytes each all result _ =>
        exact Or.inl ⟨bytes, (told bytes).mp result⟩
    | rejects group member noByte result _ =>
        exact Or.inr ⟨group, member, noByte⟩
    | leaves each few outside =>
        exact absurd (inside macStrLen outside) (Nat.lt_irrefl _)
  · intro decided behind
    rcases decided with ⟨mac, isMac⟩ | ⟨group, member, noByte⟩
    · obtain ⟨read, inside⟩ := strToMac_of_isMac isMac behind
      refine ⟨fun other => ⟨?_, fun isOther =>
        (strToMac_of_isMac isOther behind).1⟩, inside⟩
      intro again
      obtain rfl := Option.some.inj (read.symm.trans again)
      exact isMac
    · have ends := strToMac_ends behind str
      cases ends with
      | accepts bytes each all result _ =>
          obtain ⟨byte, isByte⟩ := exists_of_forall₂ each member
          exact absurd isByte (noByte byte)
      | rejects other isMember _ result inside =>
          refine ⟨fun mac => ⟨?_, ?_⟩, inside⟩
          · intro read
            rw [result] at read
            cases read
          · intro isMac
            exact (strToMac_of_isMac isMac behind).1
      | leaves each few outside =>
          obtain ⟨byte, isByte⟩ := each group member
          exact absurd isByte (noByte byte)

/-- `1:2:3:4:5:6:7` is accepted. -/
theorem strToMac_not_exact : ¬∀ str, ExactMac str := by
  intro always
  have accepted : strToMac 0 [0x31, 0x3a, 0x32, 0x3a, 0x33, 0x3a, 0x34, 0x3a,
      0x35, 0x3a, 0x36, 0x3a, 0x37] = some [1, 2, 3, 4, 5, 6] := by
    decide
  obtain ⟨groups, six, each, spelled⟩ := ((always _ 0).1 _).mp accepted
  have noEnd : ∀ group ∈ groups, ∀ char ∈ group, isMacEnd char = false := by
    intro group member
    obtain ⟨byte, isGroup⟩ := exists_of_forall₂ each member
    exact isGroup.noEnd
  have some_ : groups ≠ [] := by
    rintro rfl
    cases six
  have ended := endedGroups_intercalate some_ noEnd []
  rw [← spelled] at ended
  have lengths := congrArg List.length ended
  rw [List.length_append, six] at lengths
  exact absurd lengths (by decide)

end Witos.Extra
