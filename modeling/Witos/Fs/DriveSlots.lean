import Witos.Fs.Partition
import Witos.Stdio.Truncation

/-!
# The names of partitions

`disk_drive_register` of `driver/block/drive.c` with the names of the devices
and the lists that it links them on.  The entries of the partition table are
scanned up to the first that is empty, so an entry behind an empty one has no
device.
-/

namespace Witos.Fs

open Library

/-- A `struct block_device`: the characters of its name, `base` and `size`. -/
structure BlockDevice where
  name : List UInt8
  base : Nat
  size : Nat

def maxDevName : Nat := 64
def labelNameSize : Nat := 32

/-- The master drive: its device has a string for a name. -/
structure MasterDrive where
  bdev : BlockDevice
  sectSize : Nat
  nameEnds : 0 ∉ bdev.name
  nameFits : bdev.name.length < maxDevName

/-- `g_bdev_list`, the `slave_list` of the drive, and the value returned. -/
structure Registration where
  ret : Int
  bdevs : List BlockDevice
  slaves : List BlockDevice

/-- `%sp%d` -/
def slaveFormat : List UInt8 := [0x25, 0x73, 0x70, 0x25, 0x64]

/-- The name and the number behind the format. -/
def slaveArguments (index : Nat) : Nat → UInt32
  | 1 => UInt32.ofNat (index + 1)
  | _ => 0

/-- The string that `snprintf` leaves in the name of a slave. -/
def slaveName (name : List UInt8) (index : Nat) : List UInt8 :=
  let printed := Stdio.snprintfInto (fun _ => name) labelNameSize slaveFormat
    (slaveArguments index)
  (printed.elim [] Prod.fst).takeWhile (· != 0)

/-- `block_device_register`. -/
def blockDeviceRegister (bdev : BlockDevice) (bdevs : List BlockDevice) :
    List BlockDevice :=
  bdevs ++ [bdev]

/-- The loop over the partitions from a position of the table on; the flags
say which `zalloc` succeeds. -/
def registerParts (name : List UInt8) :
    Nat → List PartAttr → List Bool → Registration → Registration
  | _, [], _, state => state
  | index, part :: parts, zallocs, state =>
      if zallocs.headD true then
        let slave : BlockDevice := ⟨slaveName name index, part.base, part.size⟩
        registerParts name (index + 1) parts zallocs.tail
          { ret := 0
            bdevs := blockDeviceRegister slave state.bdevs
            slaves := state.slaves ++ [slave] }
      else { state with ret := -12 }

/-- `disk_drive_register` for a drive whose first sector is `buff`. -/
def registerDrive (drive : MasterDrive) (buff : Nat → UInt8)
    (zallocs : List Bool) (bdevs : List BlockDevice) : Registration :=
  registerParts drive.bdev.name 0 (msdosPartScan drive.sectSize buff) zallocs
    { ret := 0
      bdevs := blockDeviceRegister drive.bdev bdevs
      slaves := [] }

/-- The partition of a slot, under the number of the slot. -/
def slotDevice (drive : MasterDrive) (buff : Nat → UInt8) (slot : Nat) :
    BlockDevice where
  name := drive.bdev.name ++ [0x70, UInt8.ofNat (0x31 + slot)]
  base := (msdosPart buff slot).lbaStart * drive.sectSize % 2 ^ 32
  size := (msdosPart buff slot).lbaSize * drive.sectSize % 2 ^ 32

/-- The primary entries that are not empty. -/
def usedSlots (buff : Nat → UInt8) : List Nat :=
  (List.range 4).filter fun slot => (msdosPart buff slot).lbaSize != 0

/-- Besides the drive there is one device for each entry that is not empty,
under the number of its slot, and no other. -/
def RegistersSlots (drive : MasterDrive) (buff : Nat → UInt8)
    (zallocs : List Bool) : Prop :=
  ∀ bdevs, ∃ slaves,
    (registerDrive drive buff zallocs bdevs).bdevs =
      bdevs ++ drive.bdev :: slaves ∧
    (registerDrive drive buff zallocs bdevs).slaves = slaves ∧
    slaves.Perm ((usedSlots buff).map (slotDevice drive buff))

/-- An entry that is not empty has no empty one in front of it, the memory up
to its device is there, and the name of the drive leaves room for the
number. -/
def SlotsReached (drive : MasterDrive) (buff : Nat → UInt8)
    (zallocs : List Bool) : Prop :=
  ∀ slot < 4, (msdosPart buff slot).lbaSize ≠ 0 →
    drive.bdev.name.length + 2 < labelNameSize ∧
      ∀ before ≤ slot, (msdosPart buff before).lbaSize ≠ 0 ∧
        zallocs.getD before true = true

section Names

open Stdio

theorem p_ne_percent : (0x70 : UInt8) ≠ percent := by
  decide

/-- `%s` -/
def plainString : Directive where
  flags := []
  width := []
  letter := .s
  digits := plainSigned.digits
  noNought := plainSigned.noNought

/-- The pieces of the format. -/
def slavePieces : List Piece :=
  [.conversion plainString, .plain 0x70 p_ne_percent,
    .conversion plainSigned]

theorem slavePieces_small : ∀ piece ∈ slavePieces, piece.Small := by
  intro piece member
  simp only [slavePieces, List.mem_cons, List.not_mem_nil, or_false] at member
  rcases member with rfl | rfl | rfl
  · exact ⟨fun _ => Nat.zero_le _, Nat.two_pow_pos 31⟩
  · trivial
  · exact ⟨fun _ => Nat.zero_le _, Nat.two_pow_pos 31⟩

theorem slaveNumber_text : ∀ index < 4,
    plainSigned.text snprintfSwitch (fun _ => [])
      (UInt32.ofNat (index + 1)) = [UInt8.ofNat (0x31 + index)] := by
  decide

theorem fullText_slaveFormat {name : List UInt8} {index : Nat}
    (fits : name.length < maxDevName) (slot : index < 4) :
    fullText (fun _ => name) slaveFormat (slaveArguments index) =
      name ++ [0x70, UInt8.ofNat (0x31 + index)] := by
  have isFormat : slaveFormat = spelled slavePieces := rfl
  have short : name.length < 2 ^ 31 := Nat.lt_trans fits (by decide)
  have first : plainString.text snprintfSwitch (fun _ => name)
      (slaveArguments index 0) = name := inField_zero short _
  have number : plainSigned.text snprintfSwitch (fun _ => name)
      (slaveArguments index 1) = [UInt8.ofNat (0x31 + index)] :=
    slaveNumber_text index slot
  rw [isFormat, fullText_spelled _ slavePieces_small]
  simp only [slavePieces, textOf, Piece.text, Piece.behind, nextArg, first,
    number, List.append_nil]
  rfl

theorem slaveName_eq {name : List UInt8} {index : Nat} (ends : 0 ∉ name)
    (fits : name.length < maxDevName) (slot : index < 4) :
    slaveName name index =
      (name ++ [0x70, UInt8.ofNat (0x31 + index)]).take
        (labelNameSize - 1) := by
  have text := fullText_slaveFormat fits slot
  have short : (fullText (fun _ => name) slaveFormat
      (slaveArguments index)).length < 2 ^ 31 := by
    rw [text, List.length_append, List.length_cons, List.length_singleton]
    unfold maxDevName at fits
    omega
  have stored : snprintfInto (fun _ => name) labelNameSize slaveFormat
      (slaveArguments index) =
        some ((name ++ [0x70, UInt8.ofNat (0x31 + index)]).take
          (labelNameSize - 1) ++ [0], ((name.length + 2 : Nat) : Int)) := by
    have numbers : NumbersFit (fun _ => name) slaveFormat
        (slaveArguments index) :=
      numbersFit_spelled _ slavePieces_small _
    have int : labelNameSize < 2 ^ 31 := by
      unfold labelNameSize
      omega
    rw [snprintfInto_of_short numbers (by decide) int short, text,
      List.length_append]
    rfl
  have noZero : ∀ char ∈ (name ++ [0x70, UInt8.ofNat (0x31 + index)]).take
      (labelNameSize - 1), (char != 0) = true := by
    intro char member
    have inText := List.mem_of_mem_take member
    apply bne_iff_ne.mpr
    rintro rfl
    rcases List.mem_append.mp inText with inName | inNumber
    · exact ends inName
    · have digit : ∀ index < 4, (0 : UInt8) ∉
          [0x70, UInt8.ofNat (0x31 + index)] := by
        decide
      exact digit index slot inNumber
  simp only [slaveName, stored, Option.elim_some]
  rw [List.takeWhile_append_of_pos noZero]
  exact List.append_nil _

end Names

section Scan

variable {drive : MasterDrive} {buff : Nat → UInt8}

/-- The device that the loop makes of an entry. -/
def scannedDevice (drive : MasterDrive) (buff : Nat → UInt8) (index : Nat) :
    BlockDevice :=
  { slotDevice drive buff index with name := slaveName drive.bdev.name index }

/-- The entry has a device: it and those in front of it are not empty, and the
memory is there. -/
def Reached (buff : Nat → UInt8) (zallocs : List Bool) (first left : Nat)
    (count : Nat) : Prop :=
  count < left ∧ ∀ before ≤ count,
    (msdosPart buff (first + before)).lbaSize ≠ 0 ∧
      zallocs.getD before true = true

section Reached

variable {zallocs : List Bool} {first left : Nat}

theorem Reached.head {count : Nat}
    (reached : Reached buff zallocs first (left + 1) count) :
    (msdosPart buff first).lbaSize ≠ 0 ∧ zallocs.headD true = true := by
  have head := reached.2 0 (Nat.zero_le _)
  rw [Nat.add_zero, ← List.headD_eq_getD] at head
  exact head

theorem reached_zero (head : (msdosPart buff first).lbaSize ≠ 0 ∧
    zallocs.headD true = true) :
    Reached buff zallocs first (left + 1) 0 := by
  refine ⟨Nat.succ_pos _, ?_⟩
  intro before none
  obtain rfl := Nat.le_zero.mp none
  rw [Nat.add_zero, ← List.headD_eq_getD]
  exact head

theorem reached_succ {count : Nat} (head : (msdosPart buff first).lbaSize ≠ 0 ∧
    zallocs.headD true = true) :
    Reached buff zallocs first (left + 1) (count + 1) ↔
      Reached buff zallocs.tail (first + 1) left count := by
  have later (before : Nat) :
      ((msdosPart buff (first + (before + 1))).lbaSize ≠ 0 ∧
        zallocs.getD (before + 1) true = true) ↔
      (msdosPart buff (first + 1 + before)).lbaSize ≠ 0 ∧
        zallocs.tail.getD before true = true := by
    have place : first + (before + 1) = first + 1 + before := by omega
    rw [place]
    cases zallocs <;> simp
  constructor
  · intro reached
    refine ⟨Nat.lt_of_succ_lt_succ reached.1, ?_⟩
    intro before inside
    exact (later before).mp (reached.2 _ (Nat.succ_le_succ inside))
  · intro reached
    refine ⟨Nat.succ_lt_succ reached.1, ?_⟩
    intro before inside
    cases before with
    | zero =>
        rw [Nat.add_zero, ← List.headD_eq_getD]
        exact head
    | succ before =>
        exact (later before).mpr
          (reached.2 before (Nat.le_of_succ_le_succ inside))

end Reached

theorem partScanFrom_used (left : Nat) {first : Nat}
    (used : (msdosPart buff first).lbaSize ≠ 0) :
    partScanFrom drive.sectSize buff (left + 1) first =
      ⟨(scannedDevice drive buff first).base,
        (scannedDevice drive buff first).size⟩ ::
        partScanFrom drive.sectSize buff left (first + 1) := by
  rw [partScanFrom]
  exact if_neg used

/-- The devices are those of the entries up to the first that is empty or has
no memory. -/
theorem registerParts_scan (left first : Nat) (zallocs : List Bool)
    (state : Registration) :
    ∃ count, (∀ index, index < count ↔
        Reached buff zallocs first left index) ∧
      let devices := (List.range' first count).map (scannedDevice drive buff)
      let after := registerParts drive.bdev.name first
        (partScanFrom drive.sectSize buff left first) zallocs state
      after.bdevs = state.bdevs ++ devices ∧
        after.slaves = state.slaves ++ devices := by
  induction left generalizing first zallocs state with
  | zero =>
      refine ⟨0, ?_, by simp [partScanFrom, registerParts]⟩
      intro index
      exact ⟨fun inside => absurd inside (Nat.not_lt_zero _),
        fun reached => absurd reached.1 (Nat.not_lt_zero _)⟩
  | succ left induction =>
      have stops (broken : ¬((msdosPart buff first).lbaSize ≠ 0 ∧
          zallocs.headD true = true)) (index : Nat) :
          index < 0 ↔ Reached buff zallocs first (left + 1) index := by
        constructor
        · intro inside
          exact absurd inside (Nat.not_lt_zero _)
        · intro reached
          exact absurd reached.head broken
      by_cases empty : (msdosPart buff first).lbaSize = 0
      · refine ⟨0, stops (fun both => both.1 empty), ?_⟩
        simp [partScanFrom, empty, registerParts]
      · by_cases memory : zallocs.headD true = true
        · obtain ⟨count, reached, sameDevs, sameSlaves⟩ := induction (first + 1)
            zallocs.tail
            { ret := 0
              bdevs := blockDeviceRegister (scannedDevice drive buff first)
                state.bdevs
              slaves := state.slaves ++ [scannedDevice drive buff first] }
          refine ⟨count + 1, ?_, ?_⟩
          · intro index
            cases index with
            | zero =>
                exact ⟨fun _ => reached_zero ⟨empty, memory⟩,
                  fun _ => Nat.succ_pos _⟩
            | succ index =>
                rw [Nat.succ_lt_succ_iff, reached index,
                  reached_succ ⟨empty, memory⟩]
          · dsimp only
            rw [partScanFrom_used left empty, registerParts, if_pos memory]
            dsimp only at sameDevs sameSlaves ⊢
            rw [List.range'_succ, List.map_cons]
            refine ⟨sameDevs.trans ?_, sameSlaves.trans ?_⟩
            · simp [blockDeviceRegister]
            · simp
        · refine ⟨0, stops (fun both => memory both.2), ?_⟩
          dsimp only
          rw [partScanFrom_used left empty, registerParts, if_neg memory]
          simp

end Scan

theorem registerParts_drives (name : List UInt8) (sectSize index : Nat)
    (parts : List PartAttr) (zallocs : List Bool) {state : Registration}
    (success : state.ret = 0) :
    let after := registerParts name index parts zallocs state
    let drives := registerSlaves sectSize parts zallocs
    after.ret = drives.1 ∧
      after.slaves.map (fun slave => (slave.base, slave.size)) =
        state.slaves.map (fun slave => (slave.base, slave.size)) ++
          drives.2.map fun drive => (drive.base, drive.size) := by
  induction parts generalizing index zallocs state with
  | nil => simp [registerParts, registerSlaves, success]
  | cons part parts induction =>
      dsimp only at induction ⊢
      rw [registerParts, registerSlaves]
      split
      · have rest := @induction (index + 1) zallocs.tail
          ⟨0, blockDeviceRegister
            ⟨slaveName name index, part.base, part.size⟩ state.bdevs,
            state.slaves ++ [⟨slaveName name index, part.base, part.size⟩]⟩
          rfl
        refine ⟨rest.1, rest.2.trans ?_⟩
        simp
      · simp

theorem registerDrive_drives (drive : MasterDrive) (buff : Nat → UInt8)
    (zallocs : List Bool) (bdevs : List BlockDevice) :
    let after := registerDrive drive buff zallocs bdevs
    let drives := diskDriveRegister drive.sectSize buff zallocs
    after.ret = drives.1 ∧
      after.slaves.map (fun slave => (slave.base, slave.size)) =
        drives.2.map fun drive => (drive.base, drive.size) := by
  have listed := @registerParts_drives drive.bdev.name drive.sectSize 0
    (msdosPartScan drive.sectSize buff) zallocs
    ⟨0, blockDeviceRegister drive.bdev bdevs, []⟩ rfl
  dsimp only at listed
  rw [List.map_nil, List.nil_append] at listed
  exact listed

section Slots

variable {drive : MasterDrive} {buff : Nat → UInt8} {zallocs : List Bool}

/-- The devices of the first slots are all that is registered besides the
drive. -/
theorem registerDrive_devices (drive : MasterDrive) (buff : Nat → UInt8)
    (zallocs : List Bool) (bdevs : List BlockDevice) :
    ∃ count, (∀ slot, slot < count ↔ Reached buff zallocs 0 4 slot) ∧
      let devices := (List.range count).map (scannedDevice drive buff)
      (registerDrive drive buff zallocs bdevs).bdevs =
          bdevs ++ drive.bdev :: devices ∧
        (registerDrive drive buff zallocs bdevs).slaves = devices := by
  obtain ⟨count, reached, sameDevs, sameSlaves⟩ :=
    @registerParts_scan drive buff 4 0 zallocs
      { ret := 0
        bdevs := blockDeviceRegister drive.bdev bdevs
        slaves := [] }
  refine ⟨count, reached, ?_⟩
  rw [List.range_eq_range', registerDrive, msdosPartScan]
  dsimp only
  rw [sameDevs, sameSlaves]
  simp [blockDeviceRegister]

theorem scannedDevice_eq {slot : Nat} (inside : slot < 4)
    (room : drive.bdev.name.length + 2 < labelNameSize) :
    scannedDevice drive buff slot = slotDevice drive buff slot := by
  have whole : slaveName drive.bdev.name slot =
      drive.bdev.name ++ [0x70, UInt8.ofNat (0x31 + slot)] := by
    rw [slaveName_eq drive.nameEnds drive.nameFits inside]
    apply List.take_of_length_le
    rw [List.length_append]
    exact Nat.le_sub_one_of_lt room
  rw [scannedDevice, whole]
  rfl

theorem slotNumber_inj : ∀ index < 4, ∀ slot < 4,
    UInt8.ofNat (0x31 + index) = UInt8.ofNat (0x31 + slot) → index = slot := by
  decide

/-- A device under the name of a slot is the one of that slot, and the name was
not cut off. -/
theorem scannedDevice_slot {index slot : Nat} (indexInside : index < 4)
    (slotInside : slot < 4)
    (same : (scannedDevice drive buff index).name =
      (slotDevice drive buff slot).name) :
    drive.bdev.name.length + 2 < labelNameSize ∧ index = slot := by
  have name : slaveName drive.bdev.name index =
      drive.bdev.name ++ [0x70, UInt8.ofNat (0x31 + slot)] := by
    simpa only [scannedDevice, slotDevice] using same
  rw [slaveName_eq drive.nameEnds drive.nameFits indexInside] at name
  have length := congrArg List.length name
  rw [List.length_take, List.length_append, List.length_append] at length
  simp only [List.length_cons, List.length_nil] at length
  have room : drive.bdev.name.length + 2 < labelNameSize := by
    unfold labelNameSize at length ⊢
    omega
  have whole : (drive.bdev.name ++
      [0x70, UInt8.ofNat (0x31 + index)]).length ≤ labelNameSize - 1 := by
    rw [List.length_append]
    exact Nat.le_sub_one_of_lt room
  refine ⟨room, ?_⟩
  rw [List.take_of_length_le whole] at name
  have number := List.append_cancel_left name
  simp only [List.cons.injEq, and_true, true_and] at number
  exact slotNumber_inj index indexInside slot slotInside number

theorem reached_iff {slot : Nat} :
    Reached buff zallocs 0 4 slot ↔ slot < 4 ∧ ∀ before ≤ slot,
      (msdosPart buff before).lbaSize ≠ 0 ∧
        zallocs.getD before true = true := by
  unfold Reached
  simp only [Nat.zero_add]

/-- One device for each entry that is not empty, under the number of its slot,
is registered exactly where no such entry is behind an empty one, the memory
suffices and the names fit. -/
theorem registersSlots_iff (drive : MasterDrive) (buff : Nat → UInt8)
    (zallocs : List Bool) :
    RegistersSlots drive buff zallocs ↔ SlotsReached drive buff zallocs := by
  constructor
  · intro registers slot inside used
    obtain ⟨count, reached, sameDevs, -⟩ :=
      registerDrive_devices drive buff zallocs []
    obtain ⟨slaves, devs, -, perm⟩ := registers []
    rw [sameDevs] at devs
    have same : (List.range count).map (scannedDevice drive buff) =
        slaves := by
      simpa using devs
    have listed : slotDevice drive buff slot ∈
        (usedSlots buff).map (slotDevice drive buff) := by
      apply List.mem_map_of_mem
      simp [usedSlots, inside, used]
    rw [← perm.mem_iff, ← same, List.mem_map] at listed
    obtain ⟨index, member, sameDevice⟩ := listed
    have isReached := reached_iff.mp
      ((reached index).mp (List.mem_range.mp member))
    obtain ⟨room, rfl⟩ := scannedDevice_slot isReached.1 inside
      (congrArg BlockDevice.name sameDevice)
    exact ⟨room, isReached.2⟩
  · intro slots bdevs
    obtain ⟨count, reached, sameDevs, sameSlaves⟩ :=
      registerDrive_devices drive buff zallocs bdevs
    refine ⟨_, sameDevs, sameSlaves, ?_⟩
    have isUsed (slot : Nat) : slot < count ↔
        slot < 4 ∧ (msdosPart buff slot).lbaSize ≠ 0 := by
      rw [reached, reached_iff]
      constructor
      · intro both
        exact ⟨both.1, (both.2 slot (Nat.le_refl _)).1⟩
      · intro both
        exact ⟨both.1, (slots slot both.1 both.2).2⟩
    have sameSlots : (List.range count).Perm (usedSlots buff) := by
      apply (List.perm_ext_iff_of_nodup List.nodup_range
        (List.nodup_range.filter _)).mpr
      intro slot
      simp [isUsed]
    have sameDevices : (List.range count).map (scannedDevice drive buff) =
        (List.range count).map (slotDevice drive buff) := by
      apply List.map_congr_left
      intro slot member
      have used := (isUsed slot).mp (List.mem_range.mp member)
      exact scannedDevice_eq used.1 (slots slot used.1 used.2).1
    rw [sameDevices]
    exact sameSlots.map _

end Slots

/-- `mmcblk0` with sectors of 512 bytes. -/
def mmcblk0 : MasterDrive where
  bdev := ⟨[0x6d, 0x6d, 0x63, 0x62, 0x6c, 0x6b, 0x30], 0, 0⟩
  sectSize := 512
  nameEnds := by decide
  nameFits := by decide

/-- A first sector with a partition of one sector in the second slot. -/
def secondSlot : Nat → UInt8 :=
  fun position => if position = mbrPartTabOff + 16 + 12 then 1 else 0

/-- The partition of the second slot has no device where the first is
empty. -/
theorem not_registersSlots_second :
    ¬ RegistersSlots mmcblk0 secondSlot [] := by
  intro registers
  obtain ⟨slaves, devs, -, perm⟩ := registers []
  have scan : msdosPartScan mmcblk0.sectSize secondSlot = [] := by
    have empty : (msdosPart secondSlot 0).lbaSize = 0 := by decide
    rw [msdosPartScan, partScanFrom]
    exact if_pos empty
  have none : slaves = [] := by
    rw [registerDrive, scan] at devs
    simpa [registerParts, blockDeviceRegister] using devs
  have used : usedSlots secondSlot = [1] := by decide
  rw [none, used] at perm
  exact absurd perm.length_eq (by decide)

end Witos.Fs
