import Witos.Fs.Drive

/-!
# Partitions of a disk drive

`driver/block/drive.c` makes a drive of every entry of the partition table, and
`submit_bio` of `driver/block/block.c` asks such a drive for its sectors.  The
byte position of a sector passes through a product, a shift, a sum and two
parameters of type `int`, all of 32 bits.
-/

namespace Witos.Fs

open Library

/-- The bits of an `int`, read as an unsigned number. -/
def unsigned32 (value : Int) : Nat :=
  (value % 2 ^ 32).toNat

theorem unsigned32_signed32 {value : Nat} (word : value < 2 ^ 32) :
    unsigned32 (signed32 value) = value := by
  unfold unsigned32 signed32
  split <;> omega

def mbrPartTabOff : Nat := 0x1be

/-- The fields of `struct msdos_part` that are used. -/
structure MsdosPart where
  lbaStart : Nat
  lbaSize : Nat

/-- Entry `index` of the table in the first sector. -/
def msdosPart (buff : Nat → UInt8) (index : Nat) : MsdosPart where
  lbaStart := leValue (slice buff (mbrPartTabOff + 16 * index + 8) 4)
  lbaSize := leValue (slice buff (mbrPartTabOff + 16 * index + 12) 4)

structure PartAttr where
  base : Nat
  size : Nat

/-- `msdos_part_scan` from an entry on, with the number of entries left. -/
def partScanFrom (sectSize : Nat) (buff : Nat → UInt8) :
    Nat → Nat → List PartAttr
  | 0, _ => []
  | left + 1, index =>
      let part := msdosPart buff index
      if part.lbaSize = 0 then []
      else
        ⟨part.lbaStart * sectSize % 2 ^ 32, part.lbaSize * sectSize % 2 ^ 32⟩ ::
          partScanFrom sectSize buff left (index + 1)

def msdosPartScan (sectSize : Nat) (buff : Nat → UInt8) : List PartAttr :=
  partScanFrom sectSize buff 4 0

/-- A drive of a partition: `bdev.base`, `bdev.size` and `sect_size`. -/
structure SlaveDrive where
  base : Nat
  size : Nat
  sectSize : Nat

/-- The loop of `disk_drive_register` over the partitions; the flags say which
`zalloc` succeeds. -/
def registerSlaves (sectSize : Nat) :
    List PartAttr → List Bool → Int × List SlaveDrive
  | [], _ => (0, [])
  | part :: parts, zallocs =>
      if zallocs.headD true then
        let rest := registerSlaves sectSize parts zallocs.tail
        (rest.1, ⟨part.base, part.size, sectSize⟩ :: rest.2)
      else (-12, [])

/-- `disk_drive_register` for a drive whose first sector is `buff`: the value
returned and the drives of the partitions. -/
def diskDriveRegister (sectSize : Nat) (buff : Nat → UInt8)
    (zallocs : List Bool) : Int × List SlaveDrive :=
  registerSlaves sectSize (msdosPartScan sectSize buff) zallocs

inductive Direction where
  | read
  | write
  deriving DecidableEq

/-- A call of `get_block` or `put_block` of the master drive: its parameter
`start`, and where in the data of the request the sector is. -/
structure MasterCall where
  direction : Direction
  start : Int
  data : Nat
  deriving DecidableEq

/-- `drive_get_block` and `drive_put_block`, up to the call of the master. -/
def driveBlock (direction : Direction) (drive : SlaveDrive) (start : Int)
    (data : Nat) : MasterCall :=
  ⟨direction, signed32 (add32 drive.base (unsigned32 start)), data⟩

/-- `submit_bio` for a buffer of `count` sectors from the byte `len` on, with
the results of the master: its calls and whether one of them failed. -/
def submitSectors (direction : Direction) (drive : SlaveDrive)
    (result : MasterCall → Int) : Nat → Nat → Nat → List MasterCall × Bool
  | 0, _, _ => ([], false)
  | count + 1, sect, len =>
      let call :=
        driveBlock direction drive (signed32 (sect * 512 % 2 ^ 32)) len
      let rest :=
        submitSectors direction drive result count (add32 sect 1) (len + 512)
      (call :: rest.1, decide (result call < 0) || rest.2)

section Registered

variable {sectSize : Nat} {buff : Nat → UInt8} {drive : SlaveDrive}

theorem partScanFrom_base {left first index : Nat} {part : PartAttr}
    (found : (partScanFrom sectSize buff left first)[index]? = some part) :
    part.base = (msdosPart buff (first + index)).lbaStart * sectSize %
      2 ^ 32 := by
  induction left generalizing first index with
  | zero => simp [partScanFrom] at found
  | succ left induction =>
      unfold partScanFrom at found
      dsimp only at found
      split at found
      · simp at found
      · cases index with
        | zero =>
            simp only [List.getElem?_cons_zero, Option.some.injEq] at found
            rw [← found, Nat.add_zero]
        | succ index =>
            rw [List.getElem?_cons_succ] at found
            rw [induction found, Nat.add_right_comm, Nat.add_assoc]

theorem registerSlaves_part {parts : List PartAttr} {zallocs : List Bool}
    {index : Nat}
    (found : (registerSlaves sectSize parts zallocs).2[index]? =
      some drive) :
    ∃ part, parts[index]? = some part ∧ drive.base = part.base := by
  induction parts generalizing zallocs index with
  | nil => simp [registerSlaves] at found
  | cons part parts induction =>
      unfold registerSlaves at found
      split at found
      · cases index with
        | zero =>
            simp only [List.getElem?_cons_zero, Option.some.injEq] at found
            exact ⟨part, rfl, by rw [← found]⟩
        | succ index =>
            rw [List.getElem?_cons_succ] at found
            exact induction found
      · simp at found

/-- The drive of a partition starts at the product of its first sector, cut
off at 32 bits. -/
theorem diskDriveRegister_base {zallocs : List Bool} {index : Nat}
    (found : (diskDriveRegister sectSize buff zallocs).2[index]? =
      some drive) :
    drive.base = (msdosPart buff index).lbaStart * sectSize % 2 ^ 32 := by
  obtain ⟨part, scanned, base⟩ := registerSlaves_part found
  rw [base, partScanFrom_base scanned, Nat.zero_add]

end Registered

theorem submitSectors_call {direction : Direction} {drive : SlaveDrive}
    {result : MasterCall → Int} {count sect len index : Nat}
    (inside : index < count) :
    (submitSectors direction drive result count sect len).1[index]? =
      some (driveBlock direction drive
        (signed32 ((sect + index) * 512 % 2 ^ 32)) (len + 512 * index)) := by
  induction count generalizing sect len index with
  | zero => omega
  | succ count induction =>
      cases index with
      | zero => simp [submitSectors]
      | succ index =>
          have next : (add32 sect 1 + index) * 512 % 2 ^ 32 =
              (sect + (index + 1)) * 512 % 2 ^ 32 := by
            unfold add32
            omega
          have place : len + 512 + 512 * index = len + 512 * (index + 1) := by
            omega
          rw [submitSectors]
          simp only [List.getElem?_cons_succ]
          rw [induction (by omega), next, place]

/-- Nothing wraps on the way of a sector to the master: the start of the
partition, the shifted sector number and the position that arrives are the
products they stand for. -/
structure ReachesMaster (part : MsdosPart) (drive : SlaveDrive) (sect : Nat)
    (call : MasterCall) : Prop where
  base : drive.base = part.lbaStart * 512
  shifted : signed32 (sect * 512 % 2 ^ 32) = (sect * 512 : Nat)
  position : call.start = ((part.lbaStart + sect) * 512 : Nat)

theorem reachesMaster_iff {part : MsdosPart} {drive : SlaveDrive}
    (direction : Direction) (data sect : Nat)
    (base : drive.base = part.lbaStart * 512 % 2 ^ 32) :
    ReachesMaster part drive sect
        (driveBlock direction drive (signed32 (sect * 512 % 2 ^ 32)) data) ↔
      (part.lbaStart + sect) * 512 < 2 ^ 31 := by
  have sum : add32 drive.base (unsigned32 (signed32 (sect * 512 % 2 ^ 32))) =
      (part.lbaStart + sect) * 512 % 2 ^ 32 := by
    rw [unsigned32_signed32 (Nat.mod_lt _ (by decide)), base, add32]
    omega
  constructor
  · intro reaches
    have position := reaches.position
    simp only [driveBlock, sum] at position
    unfold signed32 at position
    split at position <;> omega
  · intro small
    have startSmall : part.lbaStart * 512 < 2 ^ 31 :=
      Nat.lt_of_le_of_lt (Nat.mul_le_mul_right 512 (Nat.le_add_right _ _))
        small
    have sectSmall : sect * 512 < 2 ^ 31 :=
      Nat.lt_of_le_of_lt (Nat.mul_le_mul_right 512 (Nat.le_add_left _ _))
        small
    refine ⟨?_, ?_, ?_⟩
    · rw [base]
      exact Nat.mod_eq_of_lt (Nat.lt_trans startSmall (by decide))
    · rw [Nat.mod_eq_of_lt (Nat.lt_trans sectSmall (by decide))]
      exact signed32_of_lt sectSmall
    · simp only [driveBlock, sum]
      rw [Nat.mod_eq_of_lt (Nat.lt_trans small (by decide))]
      exact signed32_of_lt small

/-- A sector of a request reaches the master without a wrap just where its
byte position is an `int`. -/
theorem submitBio_reachesMaster_iff (buff : Nat → UInt8)
    (zallocs : List Bool) (direction : Direction)
    (result : MasterCall → Int) {number sect count index : Nat}
    {drive : SlaveDrive}
    (registered : (diskDriveRegister 512 buff zallocs).2[number]? =
      some drive)
    (inside : index < count) :
    (∃ call, (submitSectors direction drive result count sect 0).1[index]? =
        some call ∧ call.direction = direction ∧ call.data = 512 * index ∧
        ReachesMaster (msdosPart buff number) drive (sect + index) call) ↔
      ((msdosPart buff number).lbaStart + (sect + index)) * 512 <
        2 ^ 31 := by
  have call := @submitSectors_call direction drive result count sect 0 index
    inside
  rw [← reachesMaster_iff direction (0 + 512 * index) (sect + index)
    (diskDriveRegister_base registered)]
  constructor
  · rintro ⟨found, isCall, -, -, reaches⟩
    rw [call, Option.some.injEq] at isCall
    rw [isCall]
    exact reaches
  · intro reaches
    exact ⟨_, call, rfl, Nat.zero_add _, reaches⟩

/-- A first sector with one partition of 16 sectors. -/
def onePartition (lbaStart : List UInt8) : Nat → UInt8 :=
  fun position =>
    if position < mbrPartTabOff + 8 then 0
    else (lbaStart ++ [16, 0, 0, 0]).getD (position - (mbrPartTabOff + 8)) 0

/-- The third sector of a partition that starts at sector 2048. -/
theorem submitBio_reachesMaster_iff_third :
    ∃ drive, (diskDriveRegister 512 (onePartition [0, 8, 0, 0]) []).2[0]? =
        some drive ∧
      ∃ call, (submitSectors .read drive (fun _ => 0) 1 2 0).1[0]? =
        some call ∧ call.direction = .read ∧ call.data = 512 * 0 ∧
        ReachesMaster (msdosPart (onePartition [0, 8, 0, 0]) 0) drive (2 + 0)
          call :=
  ⟨_, rfl, (submitBio_reachesMaster_iff (onePartition [0, 8, 0, 0]) [] .read
    (fun _ => 0) rfl (by decide)).mpr (by decide)⟩

/-- A partition that starts at 2 GiB is asked for at a negative position. -/
theorem submitBio_not_reachesMaster :
    ¬∀ (buff : Nat → UInt8) (zallocs : List Bool) (direction : Direction)
      (result : MasterCall → Int) (number sect : Nat) (drive : SlaveDrive),
      (diskDriveRegister 512 buff zallocs).2[number]? = some drive →
      sect < (msdosPart buff number).lbaSize →
      ∃ call, (submitSectors direction drive result 1 sect 0).1[0]? =
        some call ∧
        ReachesMaster (msdosPart buff number) drive sect call := by
  intro always
  obtain ⟨call, isCall, reaches⟩ := always (onePartition [0, 0, 64, 0]) []
    .read (fun _ => 0) 0 0 _ rfl (by decide)
  have position := reaches.position
  rw [← Option.some.inj isCall] at position
  exact absurd position (by decide)

end Witos.Fs
