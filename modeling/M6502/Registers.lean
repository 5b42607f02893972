import M6502.Status.Effect

/-!
# Registers

Everything the processor holds outside memory: the accumulator, the two index registers, the stack
pointer, the program counter, the status register and two latches for interrupt requests.

The stack lives in page one. The stack pointer is kept as a word, but only its low byte selects a
cell; whatever moves the pointer as a stack pointer also brings it back into page one. The latches
are stored for the machine around the processor, which itself never serves an interrupt.

## Main definitions

* `Registers`, `Registers.powerOn` — the registers and their values after power-on.
* `Registers.stackCell`, `Registers.setStackOffset` — the cell the stack pointer selects.
* `Registers.setStatus`, `Registers.setFlags`, `Registers.storeFlags` — setting the status.
-/

namespace M6502

def stackCellAt (offset : Byte) : Word := .ofBytes 1 offset

def stackBase : Word := stackCellAt 0

/-- The registers of the processor. The defaults are the values after power-on. -/
structure Registers where
  a : Byte := 0
  x : Byte := 0
  y : Byte := 0
  sp : Word := 0x0100
  pc : Word := 0xFFFC
  status : Status := .empty
  /-- An interrupt request is waiting. -/
  irqPending : Bool := false
  /-- A non-maskable interrupt request is waiting. -/
  nmiPending : Bool := false
deriving DecidableEq, Repr

namespace Registers

def powerOn : Registers := {}

instance : Inhabited Registers := ⟨powerOn⟩

/-- Moves the program counter on by `n`, wrapping at the end of memory. -/
def advance (r : Registers) (n : Word) : Registers := { r with pc := r.pc + n }

/-! ## The stack pointer -/

/-- The cell of page one that the stack pointer selects. -/
def stackCell (r : Registers) : Word := stackCellAt r.sp.low

def setStackOffset (r : Registers) (offset : Byte) : Registers :=
  { r with sp := stackCellAt offset }

/-! ## The status register -/

/-- Takes over the flags of `s`. Bits that are no flags are dropped. -/
def setStatus (r : Registers) (s : Status) : Registers := { r with status := s.flagsOnly }

/-- Sets or clears the flags of a mask, and leaves every other bit of the status as it is. -/
def setFlags (r : Registers) (mask : Byte) (on : Bool) : Registers :=
  { r with status := r.status.setAll (mask &&& Status.flagBits) on }

/-- Sets or clears the flags of a mask, and drops all bits that are no flags. -/
def storeFlags (r : Registers) (mask : Byte) (on : Bool) : Registers :=
  r.setStatus (r.status.setAll mask on)

def apply (r : Registers) (e : Effect) : Registers := { r with status := r.status.apply e }

end Registers

end M6502
