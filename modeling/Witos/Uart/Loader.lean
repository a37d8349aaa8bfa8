import Witos.Library.Word
import Witos.Net.Tftp

/-!
# Where loaded data goes

The loaders of `lib/uart` keep their data in memory, write it to a file, or
both.  The code that does so is the same in `kermit.c` and `ymodem.c`.
-/

namespace Witos.Uart

open Library

/-- The pointers of `struct loader_opt`: whether they are set. -/
structure LoaderOpt where
  loadAddr : Bool
  dst : Bool

/-- `FILE_NAME_SIZE`, the size of `file_name`. -/
def fileNameSize : Nat := 256

/-- The results of `ioctl` and `write` should they be called. -/
structure Io where
  ioctlRet : Int
  writeRet : Int

/-- `memory` are the bytes from the load address on (or the local buffer),
`currAddr` the offset of `curr_addr` in them, and `written` the bytes handed to
`write` unless it failed. -/
structure Sink where
  imgType : Tftp.ImageType
  memory : Nat → UInt8
  currAddr : Nat
  loadSize : Nat
  written : List UInt8
  oobModes : List Tftp.OobMode

def startSink (memory : Nat → UInt8) : Sink where
  imgType := .max
  memory := memory
  currAddr := 0
  loadSize := 0
  written := []
  oobModes := []

/-- Data is stored from the current address on before it is checked. -/
def Sink.store (sink : Sink) (data : List UInt8) : Sink :=
  { sink with memory := overlayAt sink.currAddr data sink.memory }

/-- The branch on `opt->dst`: the mode is set once, before the first write.
The value of the call that fails decides. -/
def Sink.write (sink : Sink) (opt : LoaderOpt) (io : Io) (count : Nat) :
    Except Int Sink :=
  if opt.dst then
    let data := fun index => sink.memory (sink.currAddr + index)
    let imgType := Tftp.imageTypeDetect data
    let detected :=
      if sink.imgType = .max then
        { sink with
          imgType := imgType
          oobModes := sink.oobModes ++ [Tftp.oobMode imgType] }
      else sink
    if sink.imgType = .max ∧ io.ioctlRet < 0 then .error io.ioctlRet
    else if io.writeRet < 0 then .error io.writeRet
    else .ok { detected with written := sink.written ++ slice data 0 count }
  else .ok sink

/-- The data is kept: the address advances, unless it is that of the local
buffer, and the size grows. -/
def Sink.advance (sink : Sink) (opt : LoaderOpt) (count : Nat) : Sink :=
  { sink with
    currAddr :=
      if opt.loadAddr then sink.currAddr + count else sink.currAddr
    loadSize := add32 sink.loadSize count }

/-- The bytes loaded so far, wherever they go. -/
structure Sink.Holds (sink : Sink) (opt : LoaderOpt) (bytes : List UInt8) :
    Prop where
  memory : opt.loadAddr = true → slice sink.memory 0 bytes.length = bytes
  written : opt.dst = true → sink.written = bytes
  loadSize : sink.loadSize = bytes.length % 2 ^ 32
  currAddr : sink.currAddr = if opt.loadAddr then bytes.length else 0

theorem startSink_holds (opt : LoaderOpt) (memory : Nat → UInt8) :
    (startSink memory).Holds opt [] where
  memory := fun _ => rfl
  written := fun _ => rfl
  loadSize := rfl
  currAddr := by
    show 0 = if opt.loadAddr then 0 else 0
    rw [ite_self]

theorem Sink.Holds.store {sink : Sink} {opt : LoaderOpt}
    {bytes : List UInt8} (holds : sink.Holds opt bytes)
    (data : List UInt8) : (sink.store data).Holds opt bytes where
  memory := by
    intro toMemory
    have address := holds.currAddr
    rw [if_pos toMemory] at address
    show slice (overlayAt sink.currAddr data sink.memory) 0 _ = _
    rw [slice_overlayAt_of_disjoint, holds.memory toMemory]
    left
    rw [Nat.zero_add, address]
  written := holds.written
  loadSize := holds.loadSize
  currAddr := holds.currAddr

/-- What a write that does not fail leaves as it is, and what it writes. -/
structure Sink.Writes (opt : LoaderOpt) (count : Nat) (before after : Sink) :
    Prop where
  memory : after.memory = before.memory
  currAddr : after.currAddr = before.currAddr
  loadSize : after.loadSize = before.loadSize
  written : after.written = before.written ++
    if opt.dst then slice before.memory before.currAddr count else []

theorem Sink.write_writes {sink written : Sink} {opt : LoaderOpt} {io : Io}
    {count : Nat} (wrote : sink.write opt io count = .ok written) :
    Sink.Writes opt count sink written := by
  unfold Sink.write at wrote
  split at wrote
  case isTrue toFile =>
    dsimp only at wrote
    split at wrote
    · cases wrote
    · split at wrote
      · cases wrote
      · cases wrote
        have data : slice (fun index => sink.memory (sink.currAddr + index))
            0 count = slice sink.memory sink.currAddr count := by
          apply slice_congr
          intro index _
          rw [Nat.zero_add]
        split
        · exact ⟨rfl, rfl, rfl, by rw [if_pos toFile, data]⟩
        · exact ⟨rfl, rfl, rfl, by rw [if_pos toFile, data]⟩
  case isFalse noFile =>
    cases wrote
    exact ⟨rfl, rfl, rfl, by rw [if_neg noFile, List.append_nil]⟩

theorem Sink.write_ok (sink : Sink) (opt : LoaderOpt) {io : Io} (count : Nat)
    (ioctls : 0 ≤ io.ioctlRet) (writes : 0 ≤ io.writeRet) :
    ∃ written, sink.write opt io count = .ok written := by
  unfold Sink.write
  split
  · dsimp only
    rw [if_neg (fun failed => absurd failed.2 (Int.not_lt.mpr ioctls)),
      if_neg (Int.not_lt.mpr writes)]
    exact ⟨_, rfl⟩
  · exact ⟨_, rfl⟩

theorem Sink.Holds.append {sink written : Sink} {opt : LoaderOpt} {io : Io}
    {bytes data : List UInt8} (holds : sink.Holds opt bytes)
    (wrote : (sink.store data).write opt io data.length = .ok written) :
    (written.advance opt data.length).Holds opt (bytes ++ data) := by
  have writes := Sink.write_writes wrote
  have kept := holds.store data
  have stored : slice written.memory sink.currAddr data.length = data := by
    rw [writes.memory]
    exact slice_overlayAt _ _ _
  constructor
  · intro toMemory
    have address := holds.currAddr
    rw [if_pos toMemory] at address
    show slice written.memory 0 _ = _
    rw [List.length_append, ← slice_append, Nat.zero_add, ← address, stored,
      address, writes.memory, kept.memory toMemory]
  · intro toFile
    show written.written = _
    rw [writes.written, if_pos toFile, kept.written toFile,
      ← writes.memory]
    congr 1
  · show add32 written.loadSize data.length = _
    rw [writes.loadSize, kept.loadSize, List.length_append, add32,
      Nat.mod_add_mod]
  · show (if opt.loadAddr then written.currAddr + data.length
      else written.currAddr) = _
    rw [writes.currAddr, kept.currAddr, List.length_append]
    by_cases toMemory : opt.loadAddr = true
    · rw [if_pos toMemory, if_pos toMemory, if_pos toMemory]
    · rw [if_neg toMemory, if_neg toMemory, if_neg toMemory]

end Witos.Uart
