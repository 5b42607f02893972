import M6502.Machine.Step

/-!
# Where operands are

Resolving an operand threads the registers through every byte that is taken from the instruction
stream. Here the same cells are given outright, as functions of the memory and the registers before
the instruction: a data mode has a base address and an index that is added to it, and the program
counter ends past the operand bytes.

## Main definitions

* `DataMode.base`, `DataMode.index`, `DataMode.cell` — a data cell, from the first operand byte on.
* `Machine.operandByte`, `Machine.operandWord`, `Machine.cell` — the operand of the instruction at
  the program counter.
* `Machine.past` — the machine with the program counter past an instruction.

## Main statements

* `DataMode.locate_eq` — locating a cell finds the base, the base plus the index, and the next
  instruction.
* `Location.crossed_iff` — an index crosses a page exactly when it carries out of the low byte.
* `Machine.ready_eq` — resolving moves the program counter past the instruction.
-/

namespace M6502

/-! ## Data cells -/

namespace DataMode

/-- The address before an index is added to it. The program counter stands at the first operand
byte. An index that stays in page zero is part of the base. -/
def base (mode : DataMode) (order : ByteOrder) (mem : Memory) (r : Registers) : Word :=
  match mode with
  | zeroPage => .ofLow (mem.read r.pc)
  | zeroPageX => .ofLow (mem.read r.pc + r.x)
  | zeroPageY => .ofLow (mem.read r.pc + r.y)
  | absolute | absoluteX | absoluteY => order.word (mem.read r.pc) (mem.read (r.pc + 1))
  | indirectX => mem.pointer (mem.read r.pc + r.x)
  | indirectY => mem.pointer (mem.read r.pc)

/-- The index that is added to the base; zero, if the mode has none. -/
def index (mode : DataMode) (r : Registers) : Byte :=
  match mode with
  | absoluteX => r.x
  | absoluteY | indirectY => r.y
  | zeroPage | zeroPageX | zeroPageY | absolute | indirectX => 0

/-- The modes whose index can lead from the page of the base to the next. -/
def indexed : DataMode → Bool
  | absoluteX | absoluteY | indirectY => true
  | zeroPage | zeroPageX | zeroPageY | absolute | indirectX => false

def cell (mode : DataMode) (order : ByteOrder) (mem : Memory) (r : Registers) : Word :=
  mode.base order mem r + .ofLow (mode.index r)

end DataMode

@[simp] theorem Word.ofLow_zero : Word.ofLow 0#8 = 0#16 := by decide

/-- Locating a cell finds the base, the base plus the index, and the next instruction. -/
theorem DataMode.locate_eq (mode : DataMode) (order : ByteOrder) (mem : Memory) (r : Registers) :
    mode.locate order mem r =
      (⟨mode.base order mem r, mode.cell order mem r⟩,
        r.advance (.ofNat 16 mode.operandLength)) := by
  refine Prod.ext ?_ (mode.registers_locate order mem r)
  cases mode <;>
    simp [locate, base, cell, index, Location.direct, Location.indexed, Registers.fetchWord_eq,
      Registers.fetchByte, Registers.advance]

/-- An index crosses a page exactly when it carries out of the low byte of the base. The carry may
lead from the last page to the first. -/
theorem Location.crossed_iff (base : Word) (index : Byte) :
    (Location.mk base (base + .ofLow index)).crossed = true ↔
      256 ≤ base.low.toNat + index.toNat := by
  have hb := base.isLt
  have hi := index.isLt
  have hs : (base + Word.ofLow index).toNat = (base.toNat + index.toNat) % 65536 := by
    rw [BitVec.toNat_add, Word.toNat_ofLow]
  simp only [crossed, Bool.not_eq_true', Word.samePage, beq_eq_false_iff_ne, ne_eq,
    ← BitVec.toNat_inj, Word.toNat_high, hs, Word.toNat_low]
  omega

/-! ## The instruction at the program counter -/

namespace Machine

/-- The byte after the opcode. -/
def operandByte (m : Machine) : Byte := m.memory.read (m.registers.pc + 1)

/-- The word after the opcode. -/
def operandWord (m : Machine) (order : ByteOrder) : Word :=
  order.word m.operandByte (m.memory.read (m.registers.pc + 2))

/-- The base address of a data mode in the instruction at the program counter. -/
def base (m : Machine) (order : ByteOrder) (mode : DataMode) : Word :=
  mode.base order m.memory m.pastOpcode.registers

/-- The cell that a data mode names in the instruction at the program counter. -/
def cell (m : Machine) (order : ByteOrder) (mode : DataMode) : Word :=
  m.base order mode + .ofLow (mode.index m.registers)

/-- The machine with the program counter past an instruction. -/
def past (m : Machine) (i : Instruction) : Machine :=
  { m with registers := m.registers.advance (.ofNat 16 i.length) }

/-- Taking the opcode does not change where a data mode leads. -/
theorem locate_pastOpcode (m : Machine) (order : ByteOrder) (mode : DataMode) :
    (mode.locate order m.memory m.pastOpcode.registers).1 =
      ⟨m.base order mode, m.cell order mode⟩ := by
  rw [DataMode.locate_eq]
  cases mode <;> rfl

/-- Without an index no page is crossed. -/
theorem crossed_of_not_indexed {mode : DataMode} (h : mode.indexed = false) (m : Machine)
    (order : ByteOrder) :
    (Location.mk (m.base order mode) (m.cell order mode)).crossed = false := by
  have hindex : mode.index m.registers = 0 := by
    cases mode with
    | zeroPage | zeroPageX | zeroPageY | absolute | indirectX => rfl
    | absoluteX | absoluteY | indirectY => cases h
  rw [cell, hindex]
  simp [Location.crossed, Word.samePage]

/-- Resolving moves the program counter past the instruction and changes no other register. -/
theorem ready_eq (m : Machine) (order : ByteOrder) (i : Instruction) :
    m.ready order i = m.past i := by
  simp only [ready, resolve, Mode.registers_resolve, past, pastOpcode, Registers.advance,
    Instruction.length, BitVec.add_assoc, BitVec.ofNat_add]
  rfl

end Machine

end M6502
