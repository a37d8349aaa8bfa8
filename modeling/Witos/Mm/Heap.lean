import Witos.Library.Word

/-!
# The heap allocator

`mm/heap/malloc.c` over a word-addressed memory.  A region is a header of two
words, `pre_size` and `curr_size`, followed by its payload; the payload of a
free region starts with the two link words of `struct list_head`.  The free
regions are linked in a circular list whose head is the static variable
`g_free_region_list`.  Both `size_t` and `unsigned long` have 32 bits, and all
pointer arithmetic is modulo `2 ^ 32`.

Interrupts are locked inside `malloc` and `free`, so a call is one step.
-/

namespace Witos.Mm

open Library

/-- Memory as the 32-bit word stored at every word-aligned byte address. -/
abbrev Mem := Nat → Nat

def Mem.store (mem : Mem) (address value : Nat) : Mem :=
  fun other => if other = address then value else mem other

@[simp] theorem Mem.store_same (mem : Mem) (address value : Nat) :
    mem.store address value address = value := by
  simp [Mem.store]

theorem Mem.store_of_ne (mem : Mem) {address other : Nat} (value : Nat)
    (different : other ≠ address) :
    mem.store address value other = mem other := by
  simp [Mem.store, different]

/-- Address of the `next` field of a `struct list_head`. -/
def nextField (node : Nat) : Nat := node

/-- Address of the `prev` field of a `struct list_head`. -/
def prevField (node : Nat) : Nat := add32 node 4

/-- `__list_add`. -/
def listInsert (mem : Mem) (newNode prev next : Nat) : Mem :=
  let mem := mem.store (prevField next) newNode
  let mem := mem.store (nextField newNode) next
  let mem := mem.store (prevField newNode) prev
  mem.store (nextField prev) newNode

def listAddTail (mem : Mem) (newNode head : Nat) : Mem :=
  listInsert mem newNode (mem (prevField head)) head

/-- `list_del` with `__list_del` inlined. -/
def listDel (mem : Mem) (node : Nat) : Mem :=
  let prev := mem (prevField node)
  let next := mem (nextField node)
  let mem := mem.store (prevField next) prev
  mem.store (nextField prev) next

def wordSize : Nat := 4

def dwordSize : Nat := 2 * wordSize

/-- `LIST_NODE_SIZE`, the size of the two links. -/
def listNodeSize : Nat := 8

/-- `sizeof(struct mem_region)`. -/
def memRegionSize : Nat := 16

def minHeapLen : Nat := 1024

def wordAlignUp (address : Nat) : Nat :=
  clearLow wordSize (add32 address (wordSize - 1))

def wordAlignDown (address : Nat) : Nat :=
  clearLow wordSize address

def listNodeAlign (size : Nat) : Nat :=
  clearLow listNodeSize (add32 size (listNodeSize - 1))

def isFree (size : Nat) : Bool :=
  size % wordSize == 0

/-- Address of `pre_size`. -/
def preSize (region : Nat) : Nat := region

/-- Address of `curr_size`. -/
def currSize (region : Nat) : Nat := add32 region 4

/-- Address of `ln_mem_region`, which is also the payload. -/
def lnMemRegion (region : Nat) : Nat := add32 region 8

/-- `container_of(node, struct mem_region, ln_mem_region)`. -/
def containerOf (node : Nat) : Nat := sub32 node 8

def getSize (mem : Mem) (region : Nat) : Nat :=
  clearLow wordSize (mem (currSize region))

def getSuccessor (mem : Mem) (region : Nat) : Nat :=
  add32 (add32 region dwordSize) (getSize mem region)

def getPredecessor (mem : Mem) (region : Nat) : Nat :=
  sub32 (sub32 region (clearLow wordSize (mem (preSize region)))) dwordSize

def regionSetSize (mem : Mem) (region size : Nat) : Mem :=
  let mem := mem.store (currSize region) size
  mem.store (preSize (getSuccessor mem region)) size

/-- `__heap_init`; `none` is `-EINVAL`. -/
def heapInit (freeList : Nat) (mem : Mem) (start stop : Nat) : Option Mem :=
  let start := wordAlignUp start
  let stop := wordAlignDown stop
  if stop ≤ add32 start minHeapLen then
    none
  else
    let first := start
    let tail := sub32 stop dwordSize
    let mem := mem.store (preSize first) 1
    let mem := mem.store (currSize first) (sub32 (sub32 tail first) dwordSize)
    let mem := mem.store (preSize tail) (mem (currSize first))
    let mem := mem.store (currSize tail) 1
    some (listAddTail mem (lnMemRegion first) freeList)

/-- How the `list_for_each` of `malloc` ends. -/
inductive Scan where
  | fit (node : Nat)
  | exhausted
  | endless
deriving DecidableEq, Repr

/-- The first free region that holds `allocSize` bytes, looking at `node` and
what follows it.  The fuel bounds the number of nodes visited. -/
def firstFit (freeList : Nat) (mem : Mem) (allocSize : Nat) :
    Nat → Nat → Scan
  | 0, _ => .endless
  | fuel + 1, node =>
      if node = freeList then .exhausted
      else if allocSize ≤ mem (currSize (containerOf node)) then .fit node
      else firstFit freeList mem allocSize fuel (mem (nextField node))

/-- No list of distinct nodes in a 32-bit address space is longer. -/
def listFuel : Nat := 2 ^ 29

/-- The part of `malloc` after `do_alloc`: take the region of `node` off the
list and cut what is left over off its end. -/
def doAlloc (freeList : Nat) (mem : Mem) (allocSize node : Nat) : Mem × Nat :=
  let currRegion := containerOf node
  let mem := listDel mem node
  let resetSize := sub32 (mem (currSize currRegion)) allocSize
  let mem :=
    if resetSize < memRegionSize then
      regionSetSize mem currRegion (mem (currSize currRegion) ||| 1)
    else
      let mem := regionSetSize mem currRegion (allocSize ||| 1)
      let succRegion := getSuccessor mem currRegion
      let mem := regionSetSize mem succRegion (sub32 resetSize dwordSize)
      listAddTail mem (lnMemRegion succRegion) freeList
  (mem, lnMemRegion currRegion)

/-- `malloc`: the new memory and the returned pointer, 0 for `NULL`.  `none`
is a call that never leaves its loop. -/
def malloc (freeList : Nat) (mem : Mem) (size : Nat) : Option (Mem × Nat) :=
  let allocSize := listNodeAlign size
  match firstFit freeList mem allocSize listFuel (mem (nextField freeList)) with
  | .fit node => some (doAlloc freeList mem allocSize node)
  | .exhausted => some (mem, 0)
  | .endless => none

/-- The first half of `free`: clear the allocated bit and merge with a free
successor. -/
def mergeSuccessor (mem : Mem) (currRegion : Nat) : Mem :=
  let succRegion := getSuccessor mem currRegion
  if isFree (mem (currSize succRegion)) then
    let mem' := regionSetSize mem currRegion
      (add32 (add32 (getSize mem currRegion) (mem (currSize succRegion)))
        dwordSize)
    listDel mem' (lnMemRegion succRegion)
  else
    regionSetSize mem currRegion (getSize mem currRegion)

/-- The second half of `free`: merge into a free predecessor, which is on the
list already, or put the region on the list. -/
def mergePredecessor (freeList : Nat) (mem : Mem) (currRegion : Nat) : Mem :=
  if isFree (mem (preSize currRegion)) then
    let prevRegion := getPredecessor mem currRegion
    regionSetSize mem prevRegion
      (add32 (add32 (mem (currSize prevRegion)) (mem (currSize currRegion)))
        dwordSize)
  else
    listAddTail mem (lnMemRegion currRegion) freeList

def free (freeList : Nat) (mem : Mem) (pointer : Nat) : Mem :=
  let currRegion := sub32 pointer dwordSize
  mergePredecessor freeList (mergeSuccessor mem currRegion) currRegion

end Witos.Mm
