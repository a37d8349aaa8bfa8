import Witos.Flash.SpareAccess

/-!
# Commands on the bus of a NAND chip

`nand_command_small` and `nand_command_large` of
`driver/flash/nand/nand_core.c` send a command as cycles of one byte each.  A
chip puts the address together again.  Chips with pages of 512 bytes get one
cycle for a column in one of three areas of the page, others get two.
-/

namespace Witos.Flash

open Library

/-- What `nand_cmd_ctrl` writes: a byte to the command register or to that of
the address. -/
inductive BusCycle
  | command (byte : UInt8)
  | address (byte : UInt8)
deriving DecidableEq

/-- The commands of `nand.h`. -/
def NandCmmd.code : NandCmmd → UInt8
  | .read0 => 0x00
  | .readoob => 0x50
  | .seqin => 0x80
  | .pageprog => 0x10
  | .erase1 => 0x60
  | .erase2 => 0xd0
  | .status => 0x70

/-- `NAND_CMMD_READ1`. -/
def cmmdRead1 : UInt8 := 0x01

/-- `NAND_CMMD_READSTART`. -/
def cmmdReadstart : UInt8 := 0x30

section Commands

variable (device : NandDevice)

/-- The cycles for a row.  The third one is for chips above a size. -/
def rowCycles (limit row : Nat) : List BusCycle :=
  [.address (UInt8.ofNat row), .address (UInt8.ofNat (row >>> 8))] ++
    if limit < device.chipSize then [.address (UInt8.ofNat (row >>> 16))]
    else []

/-- `nand_command_small`.  No `SEQIN` comes without a column. -/
def nandCommandSmall (command : NandCommand) : List BusCycle :=
  let (pointer, col) :=
    match command.cmmd, command.col with
    | .seqin, some col =>
        if device.layout.writeSize ≤ col then
          ([BusCycle.command NandCmmd.readoob.code],
            some (col - device.layout.writeSize))
        else if col < 256 then ([.command NandCmmd.read0.code], some col)
        else ([.command cmmdRead1], some (col - 256))
    | _, col => ([], col)
  pointer ++ [.command command.cmmd.code] ++
    (match col with
      | none => []
      | some col =>
          [.address
            (UInt8.ofNat (if device.buswidth16 then col >>> 1 else col))]) ++
    match command.row with
    | none => []
    | some row => rowCycles device (1 <<< 25) row

/-- `nand_command_large`. -/
def nandCommandLarge (command : NandCommand) : List BusCycle :=
  let (cmmd, col) :=
    match command.cmmd, command.col with
    | .readoob, some col =>
        (NandCmmd.read0, some (col + device.layout.writeSize))
    | cmmd, col => (cmmd, col)
  [.command cmmd.code] ++
    (match col with
      | none => []
      | some col =>
          let col := if device.buswidth16 then col >>> 1 else col
          [.address (UInt8.ofNat col), .address (UInt8.ofNat (col >>> 8))]) ++
    (match command.row with
      | none => []
      | some row => rowCycles device (1 <<< 27) row) ++
    match cmmd with
    | .read0 => [.command cmmdReadstart]
    | _ => []

end Commands

/-- What a chip is asked for.  The columns of the spare bytes are behind those
of the data. -/
inductive ChipOp
  | read | program | erase | confirm | status
deriving DecidableEq

structure ChipRequest where
  op : ChipOp
  column : Option Nat
  row : Option Nat
deriving DecidableEq

/-- What a command means. -/
def NandCommand.request (writeSize : Nat) (command : NandCommand) :
    ChipRequest :=
  match command.cmmd with
  | .read0 => ⟨.read, command.col, command.row⟩
  | .readoob => ⟨.read, command.col.map (writeSize + ·), command.row⟩
  | .seqin => ⟨.program, command.col, command.row⟩
  | .erase1 => ⟨.erase, none, command.row⟩
  | .pageprog => ⟨.confirm, none, none⟩
  | .erase2 => ⟨.confirm, none, none⟩
  | .status => ⟨.status, none, none⟩

/-- What a chip has latched. -/
structure ChipLatch where
  area : Nat
  op : ChipOp
  bytes : List UInt8

/-- A command with its address in the latch. -/
def ChipLatch.request (columnCycles unit : Nat) (latch : ChipLatch) :
    ChipRequest :=
  match latch.op with
  | .confirm => ⟨.confirm, none, none⟩
  | .status => ⟨.status, none, none⟩
  | .erase => ⟨.erase, none, some (leValue latch.bytes)⟩
  | op => ⟨op,
      some (latch.area + unit * leValue (latch.bytes.take columnCycles)),
      some (leValue (latch.bytes.drop columnCycles))⟩

/-- A chip whose pages have three areas: the first 256 columns, those behind
them, and the spare bytes.  The area is kept for the next command. -/
def smallChipStep (writeSize : Nat) (latch : ChipLatch) (cycle : BusCycle) :
    ChipLatch :=
  match cycle with
  | .address byte => { latch with bytes := latch.bytes ++ [byte] }
  | .command byte =>
      if byte = 0x00 then ⟨0, .read, []⟩
      else if byte = 0x01 then ⟨256, .read, []⟩
      else if byte = 0x50 then ⟨writeSize, .read, []⟩
      else if byte = 0x80 then ⟨latch.area, .program, []⟩
      else if byte = 0x60 then ⟨latch.area, .erase, []⟩
      else if byte = 0x70 then ⟨latch.area, .status, []⟩
      else ⟨latch.area, .confirm, []⟩

/-- A chip with two cycles for a column.  The command that ends the address of
a read leaves it in the latch. -/
def largeChipStep (latch : ChipLatch) (cycle : BusCycle) : ChipLatch :=
  match cycle with
  | .address byte => { latch with bytes := latch.bytes ++ [byte] }
  | .command byte =>
      if byte = 0x30 then latch
      else if byte = 0x00 then ⟨0, .read, []⟩
      else if byte = 0x80 then ⟨0, .program, []⟩
      else if byte = 0x60 then ⟨0, .erase, []⟩
      else if byte = 0x70 then ⟨0, .status, []⟩
      else ⟨0, .confirm, []⟩

/-- What a chip with small pages takes from the cycles. -/
def smallChip (writeSize : Nat) (latch : ChipLatch) (cycles : List BusCycle) :
    ChipRequest :=
  (cycles.foldl (smallChipStep writeSize) latch).request 1 1

/-- What a chip with large pages takes from the cycles.  On a bus of sixteen
bits its columns are words. -/
def largeChip (unit : Nat) (latch : ChipLatch) (cycles : List BusCycle) :
    ChipRequest :=
  (cycles.foldl largeChipStep latch).request 2 unit

/-- Commands with the parts of an address that they need, as the driver sends
them. -/
inductive Complete : NandCommand → Prop
  | read0 (col row : Nat) : Complete ⟨.read0, some col, some row⟩
  | readoob (col row : Nat) : Complete ⟨.readoob, some col, some row⟩
  | seqin (col row : Nat) : Complete ⟨.seqin, some col, some row⟩
  | erase1 (row : Nat) : Complete ⟨.erase1, none, some row⟩
  | pageprog : Complete ⟨.pageprog, none, none⟩
  | erase2 : Complete ⟨.erase2, none, none⟩
  | status : Complete ⟨.status, none, none⟩

section Addresses

variable (device : NandDevice)

/-- The number of cycles for a row. -/
def rowCount (limit : Nat) : Nat :=
  if limit < device.chipSize then 3 else 2

theorem rowCycles_eq (limit row : Nat) :
    rowCycles device limit row =
      (leBytes (rowCount device limit) row).map BusCycle.address := by
  have second : row >>> 8 = row / 256 := Nat.shiftRight_eq_div_pow row 8
  have third : row >>> 16 = row / 256 / 256 := by
    rw [Nat.shiftRight_eq_div_pow, Nat.div_div_eq_div_mul]
  unfold rowCycles rowCount
  rw [second, third]
  split <;> rfl

theorem leValue_leBytes_eq_iff (count value : Nat) :
    leValue (leBytes count value) = value ↔ value < 256 ^ count := by
  rw [leValue_leBytes]
  constructor
  · intro same
    rw [← same]
    exact Nat.mod_lt _ (Nat.pow_pos (by decide))
  · exact Nat.mod_eq_of_lt

theorem smallChipStep_addresses (writeSize : Nat) (latch : ChipLatch)
    (bytes : List UInt8) :
    (bytes.map BusCycle.address).foldl (smallChipStep writeSize) latch =
      { latch with bytes := latch.bytes ++ bytes } := by
  induction bytes generalizing latch with
  | nil => simp
  | cons byte bytes induction =>
      rw [List.map_cons, List.foldl_cons, induction]
      simp [smallChipStep]

theorem largeChipStep_addresses (latch : ChipLatch) (bytes : List UInt8) :
    (bytes.map BusCycle.address).foldl largeChipStep latch =
      { latch with bytes := latch.bytes ++ bytes } := by
  induction bytes generalizing latch with
  | nil => simp
  | cons byte bytes induction =>
      rw [List.map_cons, List.foldl_cons, induction]
      simp [largeChipStep]

end Addresses

section Small

variable {device : NandDevice}

/-- Addresses that a chip with small pages gets whole. -/
def FitsSmall (device : NandDevice) (command : NandCommand) : Prop :=
  (∀ col, command.col = some col →
    col < if command.cmmd = .seqin then device.layout.writeSize + 256
      else 256) ∧
  ∀ row, command.row = some row → row < 256 ^ rowCount device (1 <<< 25)

/-- The cycles of a column and a row behind those of a read or a program
command. -/
theorem smallChip_column {first : List BusCycle} {latch : ChipLatch}
    {writeSize base : Nat} {op : ChipOp}
    (latched : first.foldl (smallChipStep writeSize) latch = ⟨base, op, []⟩)
    (isData : op = .read ∨ op = .program) (col row limit column : Nat) :
    ((first ++ [BusCycle.address (UInt8.ofNat col)] ++
        rowCycles device limit row).foldl (smallChipStep writeSize)
        latch).request 1 1 = ⟨op, some column, some row⟩ ↔
      base + col % 256 = column ∧ row < 256 ^ rowCount device limit := by
  have low : leValue [UInt8.ofNat col] = col % 256 := by
    simp [leValue]
  have decoded : ChipLatch.request 1 1
      ⟨base, op, UInt8.ofNat col :: leBytes (rowCount device limit) row⟩ =
      ⟨op, some (base + col % 256),
        some (leValue (leBytes (rowCount device limit) row))⟩ := by
    unfold ChipLatch.request
    rw [List.take_succ_cons, List.take_zero, List.drop_succ_cons,
      List.drop_zero, low, Nat.one_mul]
    rcases isData with rfl | rfl <;> rfl
  rw [rowCycles_eq, List.append_assoc, List.singleton_append, ← List.map_cons,
    List.foldl_append, smallChipStep_addresses, latched]
  dsimp only
  rw [List.nil_append, decoded, ChipRequest.mk.injEq]
  simp only [true_and, Option.some.injEq, leValue_leBytes_eq_iff]

/-- The chip takes each command of `nand_command_small` as it is meant, if and
only if the numbers of its address fit in their cycles. -/
theorem nandCommandSmall_request_iff (narrow : device.buswidth16 = false)
    (size : device.layout.writeSize ≤ 512) (latch : ChipLatch)
    {command : NandCommand} (complete : Complete command) :
    smallChip device.layout.writeSize latch (nandCommandSmall device command) =
        command.request device.layout.writeSize ↔
      FitsSmall device command := by
  unfold smallChip nandCommandSmall FitsSmall
  dsimp only
  rw [narrow]
  cases complete with
  | read0 col row =>
      have latched : ([] ++ [BusCycle.command NandCmmd.read0.code]).foldl
          (smallChipStep device.layout.writeSize) latch = ⟨0, .read, []⟩ := rfl
      have column : 0 + col % 256 = col ↔ col < 256 := by omega
      dsimp only
      rw [if_neg Bool.false_ne_true]
      apply (smallChip_column latched (Or.inl rfl) col row _ col).trans
      simp only [column, Option.some.injEq, forall_eq', reduceCtorEq, if_false]
  | readoob col row =>
      have latched : ([] ++ [BusCycle.command NandCmmd.readoob.code]).foldl
          (smallChipStep device.layout.writeSize) latch =
          ⟨device.layout.writeSize, .read, []⟩ := rfl
      have column : device.layout.writeSize + col % 256 =
          device.layout.writeSize + col ↔ col < 256 := by omega
      dsimp only
      rw [if_neg Bool.false_ne_true]
      apply (smallChip_column latched (Or.inl rfl) col row _
        (device.layout.writeSize + col)).trans
      simp only [column, Option.some.injEq, forall_eq', reduceCtorEq, if_false]
  | seqin col row =>
      -- the command in front of it selects the area
      have latched : ∀ base byte,
          smallChipStep device.layout.writeSize latch (.command byte) =
            ⟨base, .read, []⟩ →
          ([BusCycle.command byte] ++
              [BusCycle.command NandCmmd.seqin.code]).foldl
              (smallChipStep device.layout.writeSize) latch =
            ⟨base, .program, []⟩ := by
        intro base byte selects
        rw [List.singleton_append, List.foldl_cons, List.foldl_cons,
          List.foldl_nil, selects]
        rfl
      simp only [Option.some.injEq, forall_eq', if_true]
      by_cases inSpare : device.layout.writeSize ≤ col
      · have column : device.layout.writeSize +
            (col - device.layout.writeSize) % 256 = col ↔
            col < device.layout.writeSize + 256 := by omega
        rw [if_pos inSpare, ← column]
        exact smallChip_column
          (latched device.layout.writeSize NandCmmd.readoob.code rfl)
          (Or.inr rfl) (col - device.layout.writeSize) row _ col
      rw [if_neg inSpare]
      by_cases inFirst : col < 256
      · have column : 0 + col % 256 = col ↔
            col < device.layout.writeSize + 256 := by omega
        rw [if_pos inFirst, ← column]
        exact smallChip_column (latched 0 NandCmmd.read0.code rfl)
          (Or.inr rfl) col row _ col
      · have column : 256 + (col - 256) % 256 = col ↔
            col < device.layout.writeSize + 256 := by omega
        rw [if_neg inFirst, ← column]
        exact smallChip_column (latched 256 cmmdRead1 rfl) (Or.inr rfl)
          (col - 256) row _ col
  | erase1 row =>
      dsimp only
      rw [rowCycles_eq, List.nil_append, List.append_nil, List.foldl_append,
        smallChipStep_addresses]
      have latched : [BusCycle.command NandCmmd.erase1.code].foldl
          (smallChipStep device.layout.writeSize) latch =
          ⟨latch.area, .erase, []⟩ := rfl
      rw [latched]
      simp [ChipLatch.request, NandCommand.request, leValue_leBytes_eq_iff]
  | pageprog => simp [ChipLatch.request, NandCommand.request, smallChipStep,
      NandCmmd.code]
  | erase2 => simp [ChipLatch.request, NandCommand.request, smallChipStep,
      NandCmmd.code]
  | status => simp [ChipLatch.request, NandCommand.request, smallChipStep,
      NandCmmd.code]

end Small

section Large

variable {device : NandDevice}

/-- The bytes of a page in a column. -/
def NandDevice.columnUnit (device : NandDevice) : Nat :=
  if device.buswidth16 then 2 else 1

/-- The column of a command in the page with its spare bytes. -/
def NandCommand.pageColumn (device : NandDevice) (command : NandCommand) :
    Option Nat :=
  (command.request device.layout.writeSize).column

/-- Addresses that a chip with large pages gets whole.  A column of two bytes
begins with an even one. -/
def FitsLarge (device : NandDevice) (command : NandCommand) : Prop :=
  (∀ col, command.pageColumn device = some col →
    col % device.columnUnit = 0 ∧ col / device.columnUnit < 256 ^ 2) ∧
  ∀ row, command.row = some row → row < 256 ^ rowCount device (1 <<< 27)

/-- The cycles of a column and a row behind those of a read or a program
command. -/
theorem largeChip_column {first : List BusCycle} {latch : ChipLatch}
    {op : ChipOp}
    (latched : first.foldl largeChipStep latch = ⟨0, op, []⟩)
    (isData : op = .read ∨ op = .program) (col row limit unit column : Nat) :
    ((first ++ [BusCycle.address (UInt8.ofNat col),
          .address (UInt8.ofNat (col >>> 8))] ++
        rowCycles device limit row).foldl largeChipStep latch).request 2 unit =
        ⟨op, some column, some row⟩ ↔
      unit * (col % 256 ^ 2) = column ∧
        row < 256 ^ rowCount device limit := by
  have low : leValue [UInt8.ofNat col, UInt8.ofNat (col >>> 8)] =
      col % 256 ^ 2 := by
    rw [Nat.shiftRight_eq_div_pow]
    exact leValue_leBytes 2 col
  have decoded : ChipLatch.request 2 unit
      ⟨0, op, UInt8.ofNat col :: UInt8.ofNat (col >>> 8) ::
        leBytes (rowCount device limit) row⟩ =
      ⟨op, some (unit * (col % 256 ^ 2)),
        some (leValue (leBytes (rowCount device limit) row))⟩ := by
    unfold ChipLatch.request
    rw [List.take_succ_cons, List.take_succ_cons, List.take_zero,
      List.drop_succ_cons, List.drop_succ_cons, List.drop_zero, low,
      Nat.zero_add]
    rcases isData with rfl | rfl <;> rfl
  rw [rowCycles_eq, List.append_assoc, List.cons_append, List.singleton_append,
    ← List.map_cons, ← List.map_cons, List.foldl_append,
    largeChipStep_addresses, latched]
  dsimp only
  rw [List.nil_append, decoded, ChipRequest.mk.injEq]
  simp only [true_and, Option.some.injEq, leValue_leBytes_eq_iff]

theorem foldl_readstart (cycles : List BusCycle) (latch : ChipLatch) :
    (cycles ++ [BusCycle.command cmmdReadstart]).foldl largeChipStep latch =
      cycles.foldl largeChipStep latch := by
  rw [List.foldl_append]
  rfl

theorem column_iff (device : NandDevice) (col : Nat) :
    device.columnUnit *
        ((if device.buswidth16 then col >>> 1 else col) % 256 ^ 2) = col ↔
      col % device.columnUnit = 0 ∧ col / device.columnUnit < 256 ^ 2 := by
  unfold NandDevice.columnUnit
  rw [Nat.shiftRight_eq_div_pow]
  split <;> omega

/-- The chip takes each command of `nand_command_large` as it is meant, if and
only if the numbers of its address fit in their cycles. -/
theorem nandCommandLarge_request_iff (device : NandDevice) (latch : ChipLatch)
    {command : NandCommand} (complete : Complete command) :
    largeChip device.columnUnit latch (nandCommandLarge device command) =
        command.request device.layout.writeSize ↔
      FitsLarge device command := by
  unfold largeChip nandCommandLarge FitsLarge NandCommand.pageColumn
  cases complete with
  | read0 col row =>
      have latched : [BusCycle.command NandCmmd.read0.code].foldl
          largeChipStep latch = ⟨0, .read, []⟩ := rfl
      dsimp only
      rw [foldl_readstart]
      apply (largeChip_column latched (Or.inl rfl) _ row _ _ col).trans
      simp only [column_iff, NandCommand.request, Option.some.injEq, forall_eq']
  | readoob col row =>
      have latched : [BusCycle.command NandCmmd.read0.code].foldl
          largeChipStep latch = ⟨0, .read, []⟩ := rfl
      dsimp only
      rw [foldl_readstart, Nat.add_comm col]
      apply (largeChip_column latched (Or.inl rfl) _ row _ _
        (device.layout.writeSize + col)).trans
      simp only [column_iff, NandCommand.request, Option.map_some,
        Option.some.injEq, forall_eq']
  | seqin col row =>
      have latched : [BusCycle.command NandCmmd.seqin.code].foldl
          largeChipStep latch = ⟨0, .program, []⟩ := rfl
      dsimp only
      rw [List.append_nil]
      apply (largeChip_column latched (Or.inr rfl) _ row _ _ col).trans
      simp only [column_iff, NandCommand.request, Option.some.injEq, forall_eq']
  | erase1 row =>
      have latched : [BusCycle.command NandCmmd.erase1.code].foldl
          largeChipStep latch = ⟨0, .erase, []⟩ := rfl
      dsimp only
      rw [rowCycles_eq, List.append_nil, List.append_nil, List.foldl_append,
        largeChipStep_addresses, latched]
      simp [ChipLatch.request, NandCommand.request, leValue_leBytes_eq_iff]
  | pageprog => simp [ChipLatch.request, NandCommand.request, largeChipStep,
      NandCmmd.code]
  | erase2 => simp [ChipLatch.request, NandCommand.request, largeChipStep,
      NandCmmd.code]
  | status => simp [ChipLatch.request, NandCommand.request, largeChipStep,
      NandCmmd.code]

end Large

/-- What `nfc->command` sends is what the chip takes, if and only if the numbers
of the address fit in their cycles: `nand_command_small` on a bus of eight bits
for pages of up to 512 bytes, and `nand_command_large`. -/
theorem nandCommand_request_iff (device : NandDevice) (latch : ChipLatch)
    {command : NandCommand} (complete : Complete command) :
    (device.buswidth16 = false → device.layout.writeSize ≤ 512 →
      (smallChip device.layout.writeSize latch
          (nandCommandSmall device command) =
          command.request device.layout.writeSize ↔
        FitsSmall device command)) ∧
    (largeChip device.columnUnit latch (nandCommandLarge device command) =
        command.request device.layout.writeSize ↔
      FitsLarge device command) :=
  ⟨fun narrow size => nandCommandSmall_request_iff narrow size latch complete,
    nandCommandLarge_request_iff device latch complete⟩

theorem nandCommand_request_cleanMark :
    smallChip 512 ⟨0, .read, []⟩
        (nandCommandSmall small16MB ⟨.seqin, some 520, some 0x7fff⟩) =
      ⟨.program, some 520, some 0x7fff⟩ := by
  have fits : FitsSmall small16MB ⟨.seqin, some 520, some 0x7fff⟩ := by
    constructor
    · rintro _ ⟨⟩
      decide
    · rintro _ ⟨⟩
      decide
  exact ((nandCommand_request_iff small16MB ⟨0, .read, []⟩
    (.seqin 520 0x7fff)).1 rfl
    (by decide)).mpr fits

end Witos.Flash
