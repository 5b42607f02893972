import M6502.Memory
import M6502.Registers

/-!
# The machine and its stack

A machine is a processor's registers and its memory: all that running an instruction reads and
changes. The stack grows downwards in page one. A push writes at the stack pointer and then lowers
it; a pull raises the pointer and then reads. The pointer wraps inside the page, so the stack never
leaves it and neither overflow nor underflow is an error.

## Main definitions

* `Machine` — registers and memory.
* `Machine.push`, `Machine.pushWord` — onto the stack.
* `Registers.pull`, `Registers.pullWord` — off the stack; the memory does not change.
-/

namespace M6502

theorem stackCellAt_inj {i j : Byte} : stackCellAt i = stackCellAt j ↔ i = j := by
  simp [stackCellAt, Word.eq_iff_high_low]

/-- The registers and the memory of a processor. The defaults are those after power-on. -/
structure Machine where
  registers : Registers := .powerOn
  memory : Memory := .blank
deriving DecidableEq

namespace Machine

def powerOn : Machine := {}

instance : Inhabited Machine := ⟨powerOn⟩

def push (m : Machine) (v : Byte) : Machine where
  registers := m.registers.setStackOffset (m.registers.sp.low - 1)
  memory := m.memory.write m.registers.stackCell v

/-- Puts a word on the stack, high byte first, so that its low byte has the lower address. -/
def pushWord (m : Machine) (w : Word) : Machine := (m.push w.high).push w.low

end Machine

namespace Registers

def pull (r : Registers) (mem : Memory) : Byte × Registers :=
  let r := r.setStackOffset (r.sp.low + 1)
  (mem.read r.stackCell, r)

/-- Takes a word off the stack, low byte first. -/
def pullWord (r : Registers) (mem : Memory) : Word × Registers :=
  let (low, r) := r.pull mem
  let (high, r) := r.pull mem
  (.ofBytes high low, r)

@[simp] theorem low_setStackOffset (r : Registers) (offset : Byte) :
    (r.setStackOffset offset).sp.low = offset := by
  simp [setStackOffset, stackCellAt]

@[simp] theorem stackCell_setStackOffset (r : Registers) (offset : Byte) :
    (r.setStackOffset offset).stackCell = stackCellAt offset := by
  simp [stackCell]

@[simp] theorem setStackOffset_setStackOffset (r : Registers) (i j : Byte) :
    (r.setStackOffset i).setStackOffset j = r.setStackOffset j := rfl

end Registers

end M6502
