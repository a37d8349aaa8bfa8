import Witos.Library.Bytes
import Witos.Library.Word

/-!
# The boot tags

The tag list of `lib/linux/atag.c` and the walk of `include/linux.h` over it.
A tag starts with its size in words and its kind, and the next tag is behind
that many words.
-/

namespace Witos.Boot

open Library

/-- Memory by the byte. -/
abbrev Memory := Nat → UInt8

def load32 (memory : Memory) (address : Nat) : Nat :=
  leValue (slice memory address 4)

def store32 (address value : Nat) (memory : Memory) : Memory :=
  overlayAt address (leBytes 4 value) memory

def atagNone : Nat := 0x00000000
def atagCore : Nat := 0x54410001
def atagMem : Nat := 0x54410002
def atagInitrd2 : Nat := 0x54420005
def atagCmdline : Nat := 0x54410009

def sizeofTagHeader : Nat := 8

/-- `tag_size` of a tag with a payload of so many bytes. -/
def tagSize (payload : Nat) : Nat := (sizeofTagHeader + payload) / 4

def tagNext (memory : Memory) (tag : Nat) : Nat :=
  add32 tag (4 * load32 memory tag)

/-- `hdr.size` is the first word of a tag, `hdr.tag` the second. -/
def setHeader (tag kind size : Nat) (memory : Memory) : Memory :=
  store32 tag size (store32 (tag + 4) kind memory)

def payload (tag : Nat) : Nat := tag + sizeofTagHeader

/-- Memory and `cur_tag`. -/
structure Tags where
  memory : Memory
  curTag : Nat

def beginSetupAtag (memory : Memory) (tagBase : Nat) : Tags where
  memory :=
    store32 (payload tagBase + 8) 0 (store32 (payload tagBase + 4) 0
      (store32 (payload tagBase) 0
        (setHeader tagBase atagCore (tagSize 12) memory)))
  curTag := tagBase

def setupCmdlineAtag (tags : Tags) (cmdLine : List UInt8) : Tags :=
  let curTag := tagNext tags.memory tags.curTag
  let cmdLine := cmdLine.dropWhile (· = 0x20)
  let size := (sizeofTagHeader + cmdLine.length + 3) % 2 ^ 32 / 4
  { memory := overlayAt (payload curTag) (cmdLine ++ [0])
      (setHeader curTag atagCmdline size tags.memory)
    curTag := curTag }

/-- The memory of the board. -/
structure Board where
  sdramBase : UInt32
  sdramSize : UInt32

def configRamBankNum : Nat := 1

/-- The loop of `setup_mem_atag` with `left` more banks. -/
def setupMemLoop (board : Board) : Nat → Tags → Tags
  | 0, tags => tags
  | left + 1, tags =>
      let curTag := tagNext tags.memory tags.curTag
      setupMemLoop board left
        { memory := store32 (payload curTag) board.sdramSize.toNat
            (store32 (payload curTag + 4) board.sdramBase.toNat
              (setHeader curTag atagMem (tagSize 8) tags.memory))
          curTag := curTag }

def setupMemAtag (board : Board) (tags : Tags) : Tags :=
  setupMemLoop board configRamBankNum tags

/-- Where the initial ram disk is. -/
structure Image where
  buff : UInt32
  size : UInt32

def setupInitrdAtag (tags : Tags) (image : Image) : Tags :=
  let curTag := tagNext tags.memory tags.curTag
  { memory := store32 (payload curTag + 4) image.size.toNat
      (store32 (payload curTag) image.buff.toNat
        (setHeader curTag atagInitrd2 (tagSize 8) tags.memory))
    curTag := curTag }

def endSetupAtag (tags : Tags) : Memory :=
  setHeader (tagNext tags.memory tags.curTag) atagNone 0 tags.memory

/-- The calls that set up the list, with or without an initial ram disk. -/
def setupAtags (board : Board) (base : Nat) (cmdLine : List UInt8)
    (initrd : Option Image) (memory : Memory) : Memory :=
  let tags := setupMemAtag board
    (setupCmdlineAtag (beginSetupAtag memory base) cmdLine)
  match initrd with
  | none => endSetupAtag tags
  | some image => endSetupAtag (setupInitrdAtag tags image)

/-- `for_each_tag`: the tags it meets, and where it stops. -/
def forEachTag (memory : Memory) : Nat → Nat → Option (List Nat × Nat)
  | 0, _ => none
  | fuel + 1, tag =>
      if load32 memory tag = 0 then some ([], tag)
      else
        (forEachTag memory fuel (tagNext memory tag)).map
          fun walk => (tag :: walk.1, walk.2)

end Witos.Boot
