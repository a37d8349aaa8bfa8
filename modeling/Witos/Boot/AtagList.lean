import Witos.Boot.Atag

/-!
# The kernel finds the boot tags

Each call writes one tag and nothing below it, so the tags before it stay as
they are.  The size of the command line tag has no room for the terminator
when the length is a multiple of four: the next tag overwrites it.
-/

namespace Witos.Boot

open Library

theorem load32_store32 (address value : Nat) (memory : Memory) :
    load32 (store32 address value memory) address = value % 2 ^ 32 := by
  have written := slice_overlayAt address (leBytes 4 value) memory
  rw [length_leBytes] at written
  rw [load32, store32, written, leValue_leBytes]
  rfl

theorem load32_store32_of_disjoint {address other : Nat} (value : Nat)
    (memory : Memory) (apart : other + 4 ≤ address ∨ address + 4 ≤ other) :
    load32 (store32 address value memory) other = load32 memory other := by
  unfold load32 store32
  rw [slice_overlayAt_of_disjoint]
  rw [length_leBytes]
  exact apart

theorem store32_comm {address other : Nat} (apart : address + 4 ≤ other)
    (value otherValue : Nat) (memory : Memory) :
    store32 address value (store32 other otherValue memory) =
      store32 other otherValue (store32 address value memory) := by
  funext index
  unfold store32 overlayAt
  by_cases before : index < other
  · rw [if_pos before, if_pos before]
  · rw [if_neg before, if_neg before, if_neg (by omega), if_neg (by omega)]
    have behind : (leBytes 4 value).length ≤ index - address := by
      rw [length_leBytes]
      omega
    simp only [List.getD_eq_getElem?_getD, List.getElem?_eq_none behind,
      Option.getD_none]

theorem load32_overlayAt_of_le {address other : Nat} (bytes : List UInt8)
    (memory : Memory) (before : other + 4 ≤ address) :
    load32 (overlayAt address bytes memory) other = load32 memory other := by
  unfold load32
  rw [slice_overlayAt_of_disjoint bytes memory (Or.inl before)]

theorem load32_setHeader_size (tag kind size : Nat) (memory : Memory) :
    load32 (setHeader tag kind size memory) tag = size % 2 ^ 32 :=
  load32_store32 tag size _

theorem load32_setHeader_kind (tag kind size : Nat) (memory : Memory) :
    load32 (setHeader tag kind size memory) (tag + 4) = kind % 2 ^ 32 := by
  unfold setHeader
  rw [load32_store32_of_disjoint _ _ (Or.inr (Nat.le_refl _)),
    load32_store32]

/-- Two memories are the same below a limit. -/
def Below (limit : Nat) (before after : Memory) : Prop :=
  ∀ index < limit, after index = before index

theorem Below.trans {limit : Nat} {first second third : Memory}
    (before : Below limit first second) (after : Below limit second third) :
    Below limit first third := by
  intro index inside
  exact (after index inside).trans (before index inside)

theorem Below.mono {limit limit' : Nat} {before after : Memory}
    (below : Below limit before after) (smaller : limit' ≤ limit) :
    Below limit' before after := by
  intro index inside
  exact below index (Nat.lt_of_lt_of_le inside smaller)

theorem Below.slice {limit : Nat} {before after : Memory}
    (below : Below limit before after) {start count : Nat}
    (inside : start + count ≤ limit) :
    slice after start count = Library.slice before start count := by
  apply slice_congr
  intro index bound
  apply below
  omega

theorem Below.load32 {limit : Nat} {before after : Memory}
    (below : Below limit before after) {address : Nat}
    (inside : address + 4 ≤ limit) :
    Boot.load32 after address = Boot.load32 before address := by
  unfold Boot.load32
  rw [below.slice inside]

theorem below_overlayAt {limit address : Nat} (bytes : List UInt8)
    (memory : Memory) (above : limit ≤ address) :
    Below limit memory (overlayAt address bytes memory) := by
  intro index inside
  exact overlayAt_of_lt bytes memory (Nat.lt_of_lt_of_le inside above)

theorem below_store32 {limit address : Nat} (value : Nat) (memory : Memory)
    (above : limit ≤ address) :
    Below limit memory (store32 address value memory) :=
  below_overlayAt _ memory above

theorem below_setHeader (tag kind size : Nat) (memory : Memory) :
    Below tag memory (setHeader tag kind size memory) := by
  apply (below_store32 kind memory (Nat.le_add_right tag 4)).trans
  exact below_store32 size _ (Nat.le_refl tag)

/-- A tag and, behind its header, the two words of its payload. -/
structure HoldsPair (memory : Memory) (tag kind first second : Nat) :
    Prop where
  size : load32 memory tag = tagSize 8
  kind : load32 memory (tag + 4) = kind
  first : load32 memory (payload tag) = first
  second : load32 memory (payload tag + 4) = second

theorem HoldsPair.of_below {limit tag kind first second : Nat}
    {before after : Memory} (holds : HoldsPair before tag kind first second)
    (below : Below limit before after) (inside : tag + 16 ≤ limit) :
    HoldsPair after tag kind first second := by
  constructor
  · rw [below.load32 (by omega)]
    exact holds.size
  · rw [below.load32 (by omega)]
    exact holds.kind
  · rw [below.load32 (by unfold payload sizeofTagHeader; omega)]
    exact holds.first
  · rw [below.load32 (by unfold payload sizeofTagHeader; omega)]
    exact holds.second

theorem beginSetupAtag_size (memory : Memory) (base : Nat) :
    load32 (beginSetupAtag memory base).memory base = tagSize 12 := by
  unfold beginSetupAtag payload sizeofTagHeader
  dsimp only
  rw [load32_store32_of_disjoint _ _ (by omega),
    load32_store32_of_disjoint _ _ (by omega),
    load32_store32_of_disjoint _ _ (by omega), load32_setHeader_size]
  rfl

theorem beginSetupAtag_kind (memory : Memory) (base : Nat) :
    load32 (beginSetupAtag memory base).memory (base + 4) = atagCore := by
  unfold beginSetupAtag payload sizeofTagHeader
  dsimp only
  rw [load32_store32_of_disjoint _ _ (by omega),
    load32_store32_of_disjoint _ _ (by omega),
    load32_store32_of_disjoint _ _ (by omega), load32_setHeader_kind]
  rfl

/-- The words of a command line tag. -/
def cmdlineSize (cmdLine : List UInt8) : Nat :=
  (sizeofTagHeader + cmdLine.length + 3) / 4

/-- What `setup_cmdline_atag` leaves at the tag it writes. -/
structure WritesCmdline (before after : Memory) (tag : Nat)
    (cmdLine : List UInt8) : Prop where
  size : load32 after tag = cmdlineSize cmdLine
  kind : load32 after (tag + 4) = atagCmdline
  string : slice after (payload tag) (cmdLine.length + 1) = cmdLine ++ [0]
  below : Below tag before after

theorem setupCmdlineAtag_writes (tags : Tags) {cmdLine : List UInt8}
    (noSpace : cmdLine.head? ≠ some 0x20)
    (short : cmdLine.length + 11 < 2 ^ 32) :
    WritesCmdline tags.memory (setupCmdlineAtag tags cmdLine).memory
      (tagNext tags.memory tags.curTag) cmdLine := by
  have kept : cmdLine.dropWhile (· = 0x20) = cmdLine := by
    cases cmdLine with
    | nil => rfl
    | cons byte rest =>
        have different : byte ≠ 0x20 := by
          intro space
          apply noSpace
          rw [List.head?_cons, space]
        simp [different]
  have sum : sizeofTagHeader + cmdLine.length + 3 < 2 ^ 32 := by
    unfold sizeofTagHeader
    omega
  unfold setupCmdlineAtag
  dsimp only
  rw [kept, Nat.mod_eq_of_lt sum]
  generalize tagNext tags.memory tags.curTag = tag
  constructor
  · rw [load32_overlayAt_of_le _ _ (by unfold payload sizeofTagHeader; omega),
      load32_setHeader_size]
    apply Nat.mod_eq_of_lt
    omega
  · rw [load32_overlayAt_of_le _ _ (by unfold payload sizeofTagHeader; omega),
      load32_setHeader_kind]
    rfl
  · have written := slice_overlayAt (payload tag) (cmdLine ++ [0])
      (setHeader tag atagCmdline (cmdlineSize cmdLine) tags.memory)
    rw [List.length_append] at written
    exact written
  · apply (below_setHeader tag _ _ tags.memory).trans
    apply below_overlayAt
    exact Nat.le_add_right tag sizeofTagHeader

/-- A tag with two words; the words may be written in either order. -/
theorem setPair_holds (tag : Nat) {kind : Nat} (small : kind < 2 ^ 32)
    (first second : UInt32) (memory : Memory) :
    let after := store32 (payload tag) first.toNat
      (store32 (payload tag + 4) second.toNat
        (setHeader tag kind (tagSize 8) memory))
    HoldsPair after tag kind first.toNat second.toNat ∧
      Below tag memory after := by
  intro after
  have kindPlace : tag + 4 + 4 ≤ payload tag := Nat.le_refl _
  have above : tag ≤ payload tag := Nat.le_add_right tag sizeofTagHeader
  refine ⟨⟨?_, ?_, ?_, ?_⟩, ?_⟩
  · rw [load32_store32_of_disjoint _ _ (by omega),
      load32_store32_of_disjoint _ _ (by omega), load32_setHeader_size]
    rfl
  · rw [load32_store32_of_disjoint _ _ (by omega),
      load32_store32_of_disjoint _ _ (by omega), load32_setHeader_kind]
    exact Nat.mod_eq_of_lt small
  · exact (load32_store32 _ _ _).trans (Nat.mod_eq_of_lt first.toNat_lt)
  · rw [load32_store32_of_disjoint _ _ (by omega), load32_store32]
    exact Nat.mod_eq_of_lt second.toNat_lt
  · have header := below_setHeader tag kind (tagSize 8) memory
    have second := below_store32 second.toNat
      (setHeader tag kind (tagSize 8) memory)
      (Nat.le_trans above (Nat.le_add_right _ 4))
    exact (header.trans second).trans (below_store32 _ _ above)

theorem setupMemAtag_holds (board : Board) (tags : Tags) :
    HoldsPair (setupMemAtag board tags).memory
        (tagNext tags.memory tags.curTag) atagMem board.sdramSize.toNat
        board.sdramBase.toNat ∧
      Below (tagNext tags.memory tags.curTag) tags.memory
        (setupMemAtag board tags).memory :=
  setPair_holds _ (by decide) _ _ _

theorem setupInitrdAtag_holds (tags : Tags) (image : Image) :
    HoldsPair (setupInitrdAtag tags image).memory
        (tagNext tags.memory tags.curTag) atagInitrd2 image.buff.toNat
        image.size.toNat ∧
      Below (tagNext tags.memory tags.curTag) tags.memory
        (setupInitrdAtag tags image).memory := by
  unfold setupInitrdAtag
  dsimp only
  rw [← store32_comm (Nat.le_refl _)]
  exact setPair_holds _ (by decide) _ _ _

theorem tagNext_eq {memory : Memory} {tag size : Nat}
    (sized : load32 memory tag = size) (fits : tag + 4 * size < 2 ^ 32) :
    tagNext memory tag = tag + 4 * size := by
  rw [tagNext, sized]
  exact add32_of_lt fits

theorem HoldsPair.next {memory : Memory} {tag kind first second : Nat}
    (holds : HoldsPair memory tag kind first second)
    (fits : tag + 16 < 2 ^ 32) : tagNext memory tag = tag + 16 :=
  tagNext_eq holds.size fits

theorem setupInitrdAtag_next {tags : Tags} {place : Nat}
    (next : tagNext tags.memory tags.curTag = place) (image : Image)
    (fits : place + 16 < 2 ^ 32) :
    tagNext (setupInitrdAtag tags image).memory
      (setupInitrdAtag tags image).curTag = place + 16 := by
  have holds := (setupInitrdAtag_holds tags image).1
  have isPlace : (setupInitrdAtag tags image).curTag = place := next
  rw [next] at holds
  rw [isPlace]
  exact holds.next fits

theorem forEachTag_stop {memory : Memory} {tag : Nat} (fuel : Nat)
    (ends : load32 memory tag = 0) :
    forEachTag memory (fuel + 1) tag = some ([], tag) :=
  if_pos ends

theorem forEachTag_next {memory : Memory} {tag next stop fuel : Nat}
    {tags : List Nat} (goesOn : load32 memory tag ≠ 0)
    (advance : tagNext memory tag = next)
    (walk : forEachTag memory fuel next = some (tags, stop)) :
    forEachTag memory (fuel + 1) tag = some (tag :: tags, stop) := by
  rw [forEachTag, if_neg goesOn, advance, walk]
  rfl

theorem forEachTag_more {memory : Memory} {fuel tag : Nat}
    {walk : List Nat × Nat} (more : Nat)
    (ends : forEachTag memory fuel tag = some walk) :
    forEachTag memory (fuel + more) tag = some walk := by
  induction fuel generalizing tag walk with
  | zero => cases ends
  | succ fuel induction =>
      rw [Nat.succ_add]
      unfold forEachTag at ends ⊢
      split at ends
      · rename_i stops
        rw [if_pos stops]
        exact ends
      · rename_i goesOn
        obtain ⟨rest, restEnds, same⟩ := Option.map_eq_some_iff.mp ends
        rw [if_neg goesOn, induction restEnds]
        exact congrArg some same

theorem forEachTag_unique {memory : Memory} {fuel fuel' tag : Nat}
    {walk walk' : List Nat × Nat}
    (ends : forEachTag memory fuel tag = some walk)
    (ends' : forEachTag memory fuel' tag = some walk') : walk = walk' := by
  have first := forEachTag_more fuel' ends
  have second := forEachTag_more fuel ends'
  rw [Nat.add_comm, second] at first
  exact (Option.some.inj first).symm

/-- The string at an address, up to its terminator. -/
def IsString (memory : Memory) (address : Nat) (string : List UInt8) : Prop :=
  slice memory address string.length = string ∧
    memory (address + string.length) = 0 ∧ 0 ∉ string

/-- The walk from `base` meets the tags that were set up, with their
contents. -/
structure Meets (board : Board) (cmdLine : List UInt8)
    (initrd : Option Image) (memory : Memory) (base : Nat)
    (tags : List Nat) (stop : Nat) : Prop where
  walk : ∃ fuel, forEachTag memory fuel base = some (tags, stop)
  kinds : tags.map (fun tag => load32 memory (tag + 4)) =
    [atagCore, atagCmdline, atagMem] ++
      (if initrd.isSome then [atagInitrd2] else [])
  none : load32 memory (stop + 4) = atagNone
  mem : ∀ tag ∈ tags, load32 memory (tag + 4) = atagMem →
    load32 memory (payload tag) = board.sdramSize.toNat ∧
      load32 memory (payload tag + 4) = board.sdramBase.toNat
  initrd : ∀ image ∈ initrd, ∀ tag ∈ tags,
    load32 memory (tag + 4) = atagInitrd2 →
      load32 memory (payload tag) = image.buff.toNat ∧
        load32 memory (payload tag + 4) = image.size.toNat
  cmdline : ∀ tag ∈ tags, load32 memory (tag + 4) = atagCmdline →
    IsString memory (payload tag) cmdLine ∧
      payload tag + cmdLine.length + 1 ≤ tagNext memory tag

/-- The kernel gets what the loader was given. -/
def RoundTrip (board : Board) (cmdLine : List UInt8)
    (initrd : Option Image) (memory : Memory) (base : Nat) : Prop :=
  ∃ tags stop, Meets board cmdLine initrd memory base tags stop

/-- The bytes of the whole list. -/
def atagsSize (cmdLine : List UInt8) (initrd : Option Image) : Nat :=
  4 * tagSize 12 + 4 * cmdlineSize cmdLine + 4 * tagSize 8 +
    (if initrd.isSome then 4 * tagSize 8 else 0) + sizeofTagHeader

section List

variable {board : Board} {cmdLine : List UInt8} {base : Nat}

def cmdlineTag (base : Nat) : Nat := base + 4 * tagSize 12

def memTag (base : Nat) (cmdLine : List UInt8) : Nat :=
  cmdlineTag base + 4 * cmdlineSize cmdLine

/-- The first three tags, as they are once all of them are written. -/
structure Written (board : Board) (cmdLine : List UInt8) (base : Nat)
    (memory : Memory) : Prop where
  coreSize : load32 memory base = tagSize 12
  coreKind : load32 memory (base + 4) = atagCore
  cmdSize : load32 memory (cmdlineTag base) = cmdlineSize cmdLine
  cmdKind : load32 memory (cmdlineTag base + 4) = atagCmdline
  mem : HoldsPair memory (memTag base cmdLine) atagMem
    board.sdramSize.toNat board.sdramBase.toNat
  text : slice memory (payload (cmdlineTag base)) cmdLine.length = cmdLine
  terminated : memory (payload (cmdlineTag base) + cmdLine.length) = 0 ↔
    cmdLine.length % 4 ≠ 0

theorem payload_le_memTag (base : Nat) (cmdLine : List UInt8) :
    payload (cmdlineTag base) + cmdLine.length ≤ memTag base cmdLine := by
  unfold payload memTag cmdlineSize sizeofTagHeader
  omega

/-- The terminator is inside its tag unless the length is a multiple of
four. -/
theorem terminator_lt_memTag_iff (base : Nat) (cmdLine : List UInt8) :
    payload (cmdlineTag base) + cmdLine.length < memTag base cmdLine ↔
      cmdLine.length % 4 ≠ 0 := by
  unfold payload memTag cmdlineSize sizeofTagHeader
  omega

theorem Written.of_below {before after : Memory}
    (written : Written board cmdLine base before)
    (below : Below (memTag base cmdLine + 16) before after) :
    Written board cmdLine base after := by
  have textInside := payload_le_memTag base cmdLine
  have start : cmdlineTag base + 8 ≤ payload (cmdlineTag base) :=
    Nat.le_refl _
  have order : base + 20 ≤ cmdlineTag base := Nat.le_refl _
  constructor
  · rw [below.load32 (by omega)]
    exact written.coreSize
  · rw [below.load32 (by omega)]
    exact written.coreKind
  · rw [below.load32 (by omega)]
    exact written.cmdSize
  · rw [below.load32 (by omega)]
    exact written.cmdKind
  · exact written.mem.of_below below (Nat.le_refl _)
  · rw [below.slice (by omega)]
    exact written.text
  · rw [below _ (by omega)]
    exact written.terminated

theorem byte_of_load32 {memory : Memory} {address value : Nat}
    (loaded : load32 memory address = value) :
    (memory address).toNat = value % 256 := by
  have split : load32 memory address = (memory address).toNat +
      256 * leValue (slice memory (address + 1) 3) := rfl
  have small : (memory address).toNat < 256 := (memory address).toNat_lt
  rw [← loaded, split]
  omega

theorem WritesCmdline.text {before after : Memory} {tag : Nat}
    (writes : WritesCmdline before after tag cmdLine) :
    slice after (payload tag) cmdLine.length = cmdLine := by
  have text := congrArg (List.take cmdLine.length) writes.string
  rw [List.take_left] at text
  have taken := take_drop_slice after (payload tag) (cmdLine.length + 1) 0
    cmdLine.length
  rw [List.drop_zero, text, Nat.add_zero, Nat.sub_zero,
    Nat.min_eq_left (Nat.le_succ _)] at taken
  exact taken.symm

/-- The terminator is there just where the tag behind it leaves room for it. -/
theorem WritesCmdline.terminated_iff {before middle after : Memory}
    (writes : WritesCmdline before middle (cmdlineTag base) cmdLine)
    (below : Below (memTag base cmdLine) middle after)
    (size : load32 after (memTag base cmdLine) = tagSize 8) :
    after (payload (cmdlineTag base) + cmdLine.length) = 0 ↔
      cmdLine.length % 4 ≠ 0 := by
  rw [← terminator_lt_memTag_iff base cmdLine]
  constructor
  · intro zero
    -- otherwise the byte is the first one of the size of the next tag
    apply Nat.lt_of_le_of_ne (payload_le_memTag base cmdLine)
    intro place
    have first := byte_of_load32 size
    rw [← place, zero] at first
    cases first
  · intro inside
    rw [below _ inside]
    have last := congrArg (fun bytes => bytes[cmdLine.length]?)
      writes.string
    simpa [slice] using last

theorem setupMemAtag_written (board : Board) (base : Nat) (memory : Memory)
    (noSpace : cmdLine.head? ≠ some 0x20)
    (fits : memTag base cmdLine + 16 < 2 ^ 32) :
    let tags := setupMemAtag board
      (setupCmdlineAtag (beginSetupAtag memory base) cmdLine)
    Written board cmdLine base tags.memory ∧
      tags.curTag = memTag base cmdLine := by
  have textInside := payload_le_memTag base cmdLine
  have start : cmdlineTag base + 8 = payload (cmdlineTag base) := rfl
  have order : base + 20 = cmdlineTag base := rfl
  have cmdlineNext :
      tagNext (beginSetupAtag memory base).memory base = cmdlineTag base := by
    apply tagNext_eq (beginSetupAtag_size memory base)
    unfold tagSize sizeofTagHeader
    omega
  have writes := setupCmdlineAtag_writes (beginSetupAtag memory base) noSpace
    (by unfold memTag cmdlineSize sizeofTagHeader at fits; omega)
  have curTag : (beginSetupAtag memory base).curTag = base := rfl
  rw [curTag, cmdlineNext] at writes
  have memNext : tagNext
      (setupCmdlineAtag (beginSetupAtag memory base) cmdLine).memory
      (setupCmdlineAtag (beginSetupAtag memory base) cmdLine).curTag =
        memTag base cmdLine := by
    have place : (setupCmdlineAtag (beginSetupAtag memory base)
        cmdLine).curTag = cmdlineTag base := cmdlineNext
    rw [place]
    apply tagNext_eq writes.size
    unfold memTag at fits
    omega
  obtain ⟨holds, below⟩ := setupMemAtag_holds board
    (setupCmdlineAtag (beginSetupAtag memory base) cmdLine)
  rw [memNext] at holds below
  intro tags
  refine ⟨?_, memNext⟩
  constructor
  · rw [below.load32 (by omega), writes.below.load32 (by omega)]
    exact beginSetupAtag_size memory base
  · rw [below.load32 (by omega), writes.below.load32 (by omega)]
    exact beginSetupAtag_kind memory base
  · rw [below.load32 (by omega)]
    exact writes.size
  · rw [below.load32 (by omega)]
    exact writes.kind
  · exact holds
  · rw [below.slice textInside]
    exact writes.text
  · exact writes.terminated_iff below holds.size

theorem Written.walk {memory : Memory}
    (written : Written board cmdLine base memory)
    (fits : memTag base cmdLine + 16 < 2 ^ 32) {fuel stop : Nat}
    {tags : List Nat}
    (rest : forEachTag memory fuel (memTag base cmdLine + 16) =
      some (tags, stop)) :
    forEachTag memory (fuel + 3) base =
      some (base :: cmdlineTag base :: memTag base cmdLine :: tags, stop) := by
  have order : base + 20 = cmdlineTag base := rfl
  have above : cmdlineTag base ≤ memTag base cmdLine := Nat.le_add_right _ _
  have memNext : tagNext memory (memTag base cmdLine) =
      memTag base cmdLine + 16 :=
    written.mem.next fits
  have cmdNext : tagNext memory (cmdlineTag base) = memTag base cmdLine := by
    apply tagNext_eq written.cmdSize
    unfold memTag at fits
    omega
  have coreNext : tagNext memory base = cmdlineTag base := by
    apply tagNext_eq written.coreSize
    unfold tagSize sizeofTagHeader
    omega
  apply forEachTag_next _ coreNext
  · apply forEachTag_next _ cmdNext
    · apply forEachTag_next _ memNext rest
      rw [written.mem.size]
      decide
    · rw [written.cmdSize]
      unfold cmdlineSize sizeofTagHeader
      omega
  · rw [written.coreSize]
    decide

theorem endSetupAtag_eq (tags : Tags) {stop : Nat}
    (next : tagNext tags.memory tags.curTag = stop) :
    load32 (endSetupAtag tags) stop = 0 ∧
      load32 (endSetupAtag tags) (stop + 4) = atagNone ∧
      Below stop tags.memory (endSetupAtag tags) := by
  unfold endSetupAtag
  rw [next]
  exact ⟨load32_setHeader_size _ _ _ _, load32_setHeader_kind _ _ _ _,
    below_setHeader _ _ _ _⟩

/-- The tags behind the first three. -/
def initrdTags (base : Nat) (cmdLine : List UInt8) :
    Option Image → List Nat
  | none => []
  | some _ => [memTag base cmdLine + 16]

theorem atagsSize_eq (base : Nat) (cmdLine : List UInt8)
    (initrd : Option Image) :
    base + atagsSize cmdLine initrd = memTag base cmdLine + 16 +
      (if initrd.isSome then 16 else 0) + 8 := by
  have core : 4 * tagSize 12 = 20 := rfl
  have pair : 4 * tagSize 8 = 16 := rfl
  unfold atagsSize memTag cmdlineTag sizeofTagHeader
  rw [core, pair]
  omega

/-- Whatever the length of the command line, the walk meets the tags and
their fields; only the command line may have lost its end. -/
theorem setupAtags_written (board : Board) (base : Nat)
    (initrd : Option Image) (memory : Memory)
    (noSpace : cmdLine.head? ≠ some 0x20)
    (fits : base + atagsSize cmdLine initrd ≤ 2 ^ 32) :
    let final := setupAtags board base cmdLine initrd memory
    Written board cmdLine base final ∧
      (∀ image ∈ initrd, HoldsPair final (memTag base cmdLine + 16)
        atagInitrd2 image.buff.toNat image.size.toNat) ∧
      ∃ stop, load32 final (stop + 4) = atagNone ∧
        forEachTag final 5 base =
          some (base :: cmdlineTag base :: memTag base cmdLine ::
            initrdTags base cmdLine initrd, stop) := by
  rw [atagsSize_eq] at fits
  obtain ⟨written, curTag⟩ := setupMemAtag_written board base memory
    noSpace (by omega)
  unfold setupAtags
  generalize setupMemAtag board
    (setupCmdlineAtag (beginSetupAtag memory base) cmdLine) = tags
    at written curTag
  have next : tagNext tags.memory tags.curTag = memTag base cmdLine + 16 := by
    rw [curTag]
    exact written.mem.next (by omega)
  cases initrd with
  | none =>
      obtain ⟨ends, kind, below⟩ := endSetupAtag_eq tags next
      have kept := written.of_below below
      refine ⟨kept, nofun, memTag base cmdLine + 16, kind, ?_⟩
      exact kept.walk (by omega) (forEachTag_stop 1 ends)
  | some image =>
      rw [Option.isSome_some, if_pos rfl] at fits
      obtain ⟨holds, below⟩ := setupInitrdAtag_holds tags image
      rw [next] at holds below
      have initrdNext := setupInitrdAtag_next next image (by omega)
      obtain ⟨ends, kind, endBelow⟩ := endSetupAtag_eq _ initrdNext
      have kept := (written.of_below below).of_below
        (endBelow.mono (by omega))
      have holdsEnd := holds.of_below endBelow (Nat.le_refl _)
      refine ⟨kept, ?_, memTag base cmdLine + 16 + 16, kind, ?_⟩
      · intro given same
        cases same
        exact holdsEnd
      · apply kept.walk (by omega)
        apply forEachTag_next _ _ (forEachTag_stop 0 ends)
        · rw [holdsEnd.size]
          decide
        · exact holdsEnd.next (by omega)

theorem Written.member {memory : Memory} {initrd : Option Image}
    (written : Written board cmdLine base memory)
    (image : ∀ image ∈ initrd, HoldsPair memory (memTag base cmdLine + 16)
      atagInitrd2 image.buff.toNat image.size.toNat) {tag : Nat}
    (member : tag ∈ base :: cmdlineTag base :: memTag base cmdLine ::
      initrdTags base cmdLine initrd) :
    (tag = base ∧ load32 memory (tag + 4) = atagCore) ∨
      (tag = cmdlineTag base ∧ load32 memory (tag + 4) = atagCmdline) ∨
      (tag = memTag base cmdLine ∧ load32 memory (tag + 4) = atagMem) ∨
      (tag = memTag base cmdLine + 16 ∧
        load32 memory (tag + 4) = atagInitrd2) := by
  rcases List.mem_cons.mp member with rfl | member
  · exact Or.inl ⟨rfl, written.coreKind⟩
  rcases List.mem_cons.mp member with rfl | member
  · exact Or.inr (Or.inl ⟨rfl, written.cmdKind⟩)
  rcases List.mem_cons.mp member with rfl | member
  · exact Or.inr (Or.inr (Or.inl ⟨rfl, written.mem.kind⟩))
  cases initrd with
  | none => cases member
  | some given =>
      rw [List.mem_singleton.mp member]
      exact Or.inr (Or.inr (Or.inr ⟨rfl, (image given rfl).kind⟩))

theorem Written.tag_eq {memory : Memory} {initrd : Option Image}
    (written : Written board cmdLine base memory)
    (image : ∀ image ∈ initrd, HoldsPair memory (memTag base cmdLine + 16)
      atagInitrd2 image.buff.toNat image.size.toNat) {tag : Nat}
    (member : tag ∈ base :: cmdlineTag base :: memTag base cmdLine ::
      initrdTags base cmdLine initrd) :
    (load32 memory (tag + 4) = atagCmdline → tag = cmdlineTag base) ∧
      (load32 memory (tag + 4) = atagMem → tag = memTag base cmdLine) ∧
      (load32 memory (tag + 4) = atagInitrd2 →
        tag = memTag base cmdLine + 16) := by
  rcases written.member image member with ⟨place, kind⟩ | ⟨place, kind⟩ |
      ⟨place, kind⟩ | ⟨place, kind⟩
  all_goals
    rw [kind, place]
    simp [atagCore, atagCmdline, atagMem, atagInitrd2]

/-- The walk meets the command line tag, whose string ends only if the
length is not a multiple of four. -/
theorem length_of_roundTrip {initrd : Option Image} {memory : Memory}
    (noSpace : cmdLine.head? ≠ some 0x20)
    (fits : base + atagsSize cmdLine initrd ≤ 2 ^ 32)
    (trip : RoundTrip board cmdLine initrd
      (setupAtags board base cmdLine initrd memory) base) :
    cmdLine.length % 4 ≠ 0 := by
  obtain ⟨written, -, stop, -, walk⟩ :=
    setupAtags_written board base initrd memory noSpace fits
  obtain ⟨tags, stop', meets⟩ := trip
  obtain ⟨fuel, walk'⟩ := meets.walk
  cases forEachTag_unique walk walk'
  have member : cmdlineTag base ∈ base :: cmdlineTag base ::
      memTag base cmdLine :: initrdTags base cmdLine initrd := by
    simp
  apply written.terminated.mp
  exact (meets.cmdline _ member written.cmdKind).1.2.1

/-- The kernel gets back what was set up exactly if the length of the command
line is not a multiple of four. -/
theorem setupAtags_roundTrip_iff (board : Board) (base : Nat)
    (cmdLine : List UInt8) (initrd : Option Image) (memory : Memory)
    (string : 0 ∉ cmdLine) (noSpace : cmdLine.head? ≠ some 0x20)
    (fits : base + atagsSize cmdLine initrd ≤ 2 ^ 32) :
    RoundTrip board cmdLine initrd
        (setupAtags board base cmdLine initrd memory) base ↔
      cmdLine.length % 4 ≠ 0 := by
  obtain ⟨written, image, stop, kind, walk⟩ :=
    setupAtags_written board base initrd memory noSpace fits
  have cmdNext : tagNext (setupAtags board base cmdLine initrd memory)
      (cmdlineTag base) = memTag base cmdLine := by
    apply tagNext_eq written.cmdSize
    rw [atagsSize_eq] at fits
    have above : cmdlineTag base + 4 * cmdlineSize cmdLine =
        memTag base cmdLine := rfl
    omega
  rw [← written.terminated]
  constructor
  · intro trip
    exact written.terminated.mpr (length_of_roundTrip noSpace fits trip)
  · intro terminated
    have inside := (terminator_lt_memTag_iff base cmdLine).mpr
      (written.terminated.mp terminated)
    refine ⟨_, stop, ⟨5, walk⟩, ?_, kind, ?_, ?_, ?_⟩
    · cases initrd with
      | none => simp [initrdTags, written.coreKind, written.cmdKind,
          written.mem.kind]
      | some given => simp [initrdTags, written.coreKind, written.cmdKind,
          written.mem.kind, (image given rfl).kind]
    · intro tag member isMem
      rw [(written.tag_eq image member).2.1 isMem]
      exact ⟨written.mem.first, written.mem.second⟩
    · intro given isGiven tag member isInitrd
      rw [(written.tag_eq image member).2.2 isInitrd]
      exact ⟨(image given isGiven).first, (image given isGiven).second⟩
    · intro tag member isCmdline
      rw [(written.tag_eq image member).1 isCmdline, cmdNext]
      exact ⟨⟨written.text, terminated, string⟩, inside⟩

def sampleBoard : Board := ⟨0x30000000, 0x04000000⟩

/-- The command line `rw`, with an initial ram disk. -/
theorem setupAtags_roundTrip_rw :
    RoundTrip sampleBoard [0x72, 0x77] (some ⟨0x30800000, 4096⟩)
      (setupAtags sampleBoard 0x30000100 [0x72, 0x77]
        (some ⟨0x30800000, 4096⟩) (fun _ => 0)) 0x30000100 :=
  (setupAtags_roundTrip_iff sampleBoard 0x30000100 [0x72, 0x77]
    (some ⟨0x30800000, 4096⟩) (fun _ => 0) (by decide) (by decide)
    (by decide)).mpr (by decide)

/-- The command line `quit` has no terminator any more. -/
theorem setupAtags_not_roundTrip_quit :
    ¬ ∀ (board : Board) (base : Nat) (cmdLine : List UInt8)
      (initrd : Option Image) (memory : Memory), 0 ∉ cmdLine →
      cmdLine.head? ≠ some 0x20 →
      base + atagsSize cmdLine initrd ≤ 2 ^ 32 →
      RoundTrip board cmdLine initrd
        (setupAtags board base cmdLine initrd memory) base := by
  intro always
  have trip := always sampleBoard 0x30000100 [0x71, 0x75, 0x69, 0x74] none
    (fun _ => 0) (by decide) (by decide) (by decide)
  exact length_of_roundTrip (by decide) (by decide) trip rfl

end List

end Witos.Boot
